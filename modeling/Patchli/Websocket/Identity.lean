import Patchli.Websocket.Handler

/-!
# Node identity

Whatever arrives on the connections and however their handlers interleave, the
registry holds for a node only a connection whose token had that node as subject, and
a handler changes nothing of other nodes.
-/

namespace Patchli.Websocket

open Fleet Auth

variable {J : Jwt} {s u : State} {c : Conn} {h : Handler} {a : HandlerAction}

/-! ### What a handler changes -/

theorem Moves.now_eq (hmoves : Moves s c h a u) : u.now = s.now := by
  cases hmoves <;> rfl

theorem Moves.handlers_eq (hmoves : Moves s c h a u) : ∃ r ph,
    u.handlers = Function.update s.handlers c (some { h with registered := r, phase := ph }) := by
  cases hmoves <;> exact ⟨_, _, rfl⟩

theorem Moves.registry_eq (hmoves : Moves s c h a u) : u.registry = s.registry ∨
    (∃ p : HeartbeatPayload, p.macAddress = h.nodeID ∧
      u.registry = (s.registry.register s.now h.nodeID c p).1) ∨
    s.registry.agents h.nodeID = some c ∧ u.registry = s.registry.unregister h.nodeID := by
  cases hmoves with
  | accepted => exact Or.inr (Or.inl ⟨_, rfl, rfl⟩)
  | unregistered _ hconn => exact Or.inr (Or.inr ⟨hconn, rfl⟩)
  | read | failed | ignored | mismatch | stored | notStored | replaced | markedOffline
  | notMarked => exact Or.inl rfl

theorem OtherCall.agents_run {am : AgentManager} {now : Time} {call : OtherCall} {v : GoString}
    (hv : (call.run am now).agents v = some c) : am.agents v = some c := by
  cases call with
  | unregister mac =>
    by_cases hmac : v = mac <;> simp_all [OtherCall.run, AgentManager.unregister]
  | pruneStaleAgents ttl =>
    simp only [OtherCall.run, AgentManager.pruneStaleAgents] at hv
    split at hv
    · cases hv
    · exact hv
  | setStatus | releaseJob => exact hv
  | acquireJob mac jobID =>
    simp only [OtherCall.run, AgentManager.acquireJob] at hv
    split at hv <;> exact hv

theorem OtherCall.details_run {am : AgentManager} {now : Time} {call : OtherCall} {v : GoString}
    {d : AgentDetails} (hv : (call.run am now).details v = some d) :
    ∃ d', am.details v = some d' ∧ d'.macAddress = d.macAddress := by
  cases call with
  | unregister mac | setStatus mac =>
    by_cases hmac : v = mac
    · subst hmac
      simp only [OtherCall.run, AgentManager.unregister, AgentManager.setStatus,
        Function.update_self, Option.map_eq_some_iff] at hv
      obtain ⟨d', hd', rfl⟩ := hv
      exact ⟨d', hd', rfl⟩
    · exact ⟨d, by simpa [OtherCall.run, AgentManager.unregister, AgentManager.setStatus, hmac]
        using hv, rfl⟩
  | pruneStaleAgents ttl =>
    simp only [OtherCall.run, AgentManager.pruneStaleAgents] at hv
    split at hv
    · cases hv
    · exact ⟨d, hv, rfl⟩
  | releaseJob => exact ⟨d, hv, rfl⟩
  | acquireJob mac jobID =>
    simp only [OtherCall.run, AgentManager.acquireJob] at hv
    split at hv <;> exact ⟨d, hv, rfl⟩

theorem OtherCall.described_run {am : AgentManager} {now : Time} {call : OtherCall} {v : GoString}
    (hd : (am.details v).isSome) (hv : (call.run am now).agents v = some c) :
    ((call.run am now).details v).isSome := by
  cases call with
  | unregister mac | setStatus mac =>
    by_cases hmac : v = mac
    · subst hmac
      simpa [OtherCall.run, AgentManager.unregister, AgentManager.setStatus] using hd
    · simpa [OtherCall.run, AgentManager.unregister, AgentManager.setStatus, hmac] using hd
  | pruneStaleAgents ttl =>
    simp only [OtherCall.run, AgentManager.pruneStaleAgents] at hv ⊢
    split at hv
    · cases hv
    · rename_i hkept
      rwa [if_neg hkept]
  | releaseJob => exact hd
  | acquireJob mac jobID =>
    simp only [OtherCall.run, AgentManager.acquireJob]
    split <;> exact hd

/-! ### Entries and subjects -/

/-- Handlers belong to the subjects of their tokens, and the entries of a node to it. -/
structure Bound (J : Jwt) (s : State) : Prop where
  authentic : ∀ c h, s.handlers c = some h →
    h.since ≤ s.now ∧ authenticate J h.since h.authHeader = some h.nodeID
  owner : ∀ v c, s.registry.agents v = some c → ∃ h, s.handlers c = some h ∧ h.nodeID = v
  details : ∀ v d, s.registry.details v = some d → d.macAddress = v
  described : ∀ v c, s.registry.agents v = some c → (s.registry.details v).isSome

theorem bound_initial (now : Time) (nodes : GoString → Option NodeRow) :
    Bound J (.initial now nodes) where
  authentic := nofun
  owner := nofun
  details := nofun
  described := nofun

theorem Bound.owner_update (hs : Bound J s) {h' : Handler} (hc : s.handlers c = some h)
    (hid : h'.nodeID = h.nodeID) {v : GoString} {k : Conn} (hk : s.registry.agents v = some k) :
    ∃ g, Function.update s.handlers c (some h') k = some g ∧ g.nodeID = v := by
  obtain ⟨g, hg, rfl⟩ := hs.owner v k hk
  by_cases hkc : k = c
  · subst hkc
    cases hc.symm.trans hg
    exact ⟨h', Function.update_self .., hid⟩
  · exact ⟨g, by rw [Function.update_of_ne hkc, hg], rfl⟩

theorem Bound.moves (hs : Bound J s) (hc : s.handlers c = some h) (hmoves : Moves s c h a u) :
    Bound J u := by
  obtain ⟨r, ph, hhandlers⟩ := hmoves.handlers_eq
  have howner {v : GoString} {k : Conn} (hk : s.registry.agents v = some k) :
      ∃ g, u.handlers k = some g ∧ g.nodeID = v := by
    rw [hhandlers]
    have hid : ({ h with registered := r, phase := ph } : Handler).nodeID = h.nodeID := rfl
    exact hs.owner_update hc hid hk
  constructor
  case authentic =>
    intro k g hg
    rw [hmoves.now_eq]
    rw [hhandlers] at hg
    by_cases hkc : k = c
    · subst hkc
      rw [Function.update_self] at hg
      cases hg
      exact hs.authentic k h hc
    · rw [Function.update_of_ne hkc] at hg
      exact hs.authentic k g hg
  case owner =>
    intro v k hk
    rcases hmoves.registry_eq with hsame | ⟨p, -, hregister⟩ | ⟨-, hunregister⟩
    · rw [hsame] at hk
      exact howner hk
    · rw [hregister] at hk
      by_cases hv : v = h.nodeID
      · subst hv
        obtain rfl : c = k := by simpa [AgentManager.register] using hk
        exact ⟨{ h with registered := r, phase := ph }, by rw [hhandlers, Function.update_self],
          rfl⟩
      · exact howner (by simpa [AgentManager.register, hv] using hk)
    · rw [hunregister] at hk
      by_cases hv : v = h.nodeID
      · simp [AgentManager.unregister, hv] at hk
      · exact howner (by simpa [AgentManager.unregister, hv] using hk)
  case details =>
    intro v d hd
    rcases hmoves.registry_eq with hsame | ⟨p, hp, hregister⟩ | ⟨-, hunregister⟩
    · rw [hsame] at hd
      exact hs.details v d hd
    · rw [hregister] at hd
      by_cases hv : v = h.nodeID
      · subst hv
        simp only [AgentManager.register, Function.update_self, Option.some.injEq] at hd
        subst hd
        exact hp
      · exact hs.details v d (by simpa [AgentManager.register, hv] using hd)
    · rw [hunregister] at hd
      have hrun : ((OtherCall.unregister h.nodeID).run s.registry s.now).details v = some d := hd
      obtain ⟨d', hd', hmac⟩ := OtherCall.details_run hrun
      rw [← hmac]
      exact hs.details v d' hd'
  case described =>
    intro v k hk
    rcases hmoves.registry_eq with hsame | ⟨p, -, hregister⟩ | ⟨-, hunregister⟩
    · rw [hsame] at hk ⊢
      exact hs.described v k hk
    · rw [hregister] at hk ⊢
      by_cases hv : v = h.nodeID
      · simp [AgentManager.register, hv]
      · simp only [AgentManager.register, Function.update_of_ne hv] at hk ⊢
        exact hs.described v k hk
    · rw [hunregister] at hk ⊢
      by_cases hv : v = h.nodeID
      · simp [AgentManager.unregister, hv] at hk
      · simp only [AgentManager.unregister, Function.update_of_ne hv] at hk ⊢
        exact hs.described v k hk

theorem bound_step {a : Action} (hs : Bound J s) (hstep : step J s a = some u) : Bound J u := by
  cases step_effect hstep with
  | advance hle =>
    exact ⟨fun c h hc => ⟨(hs.authentic c h hc).1.trans hle, (hs.authentic c h hc).2⟩, hs.owner,
      hs.details, hs.described⟩
  | other =>
    refine ⟨hs.authentic, fun v c hc => hs.owner v c (OtherCall.agents_run hc), fun v d hd => ?_,
      fun v c hc => OtherCall.described_run (hs.described v c (OtherCall.agents_run hc)) hc⟩
    obtain ⟨d', hd', hmac⟩ := OtherCall.details_run hd
    rw [← hmac]
    exact hs.details v d' hd'
  | @connected c authHeader nodeID hc hauth =>
    refine ⟨fun k g hg => ?_, fun v k hk => ?_, hs.details, hs.described⟩
    · by_cases hkc : k = c
      · subst hkc
        simp only [State.setHandler, Function.update_self, Option.some.injEq] at hg
        subst hg
        exact ⟨le_rfl, hauth⟩
      · simp only [State.setHandler, Function.update_of_ne hkc] at hg
        exact hs.authentic k g hg
    · obtain ⟨g, hg, hv⟩ := hs.owner v k hk
      have hkc : k ≠ c := by
        rintro rfl
        rw [hc] at hg
        cases hg
      exact ⟨g, by simpa [State.setHandler, hkc] using hg, hv⟩
  | handler hc hmoves => exact hs.moves hc hmoves

/-! ### Other nodes -/

/-- Node `v` and its connections are as they were. -/
structure Undisturbed (v : GoString) (s u : State) : Prop where
  agents : u.registry.agents v = s.registry.agents v
  details : u.registry.details v = s.registry.details v
  activeJobs : u.registry.activeJobs v = s.registry.activeJobs v
  nodes : u.nodes v = s.nodes v
  closed : ∀ c h, s.handlers c = some h → h.nodeID = v → u.closed c = s.closed c

theorem Undisturbed.refl (v : GoString) (s : State) : Undisturbed v s s :=
  ⟨rfl, rfl, rfl, rfl, fun _ _ _ _ => rfl⟩

theorem Undisturbed.ret {v : GoString} {t : State} (ht : Undisturbed v s t)
    (hclosed : t.closed = s.closed) (hc : s.handlers c = some h) (hv : h.nodeID ≠ v) :
    Undisturbed v s (t.ret c h) := by
  refine ⟨ht.agents, ht.details, ht.activeJobs, ht.nodes, fun k g hg hgv => ?_⟩
  have hkc : k ≠ c := by
    rintro rfl
    cases hc.symm.trans hg
    exact hv hgv
  rw [← hclosed]
  exact Function.update_of_ne hkc ..

theorem moves_undisturbed (hs : Bound J s) (hc : s.handlers c = some h)
    (hmoves : Moves s c h a u) {v : GoString} (hv : h.nodeID ≠ v) : Undisturbed v s u := by
  have hne : v ≠ h.nodeID := hv.symm
  have hsame : Undisturbed v s s := .refl v s
  cases hmoves with
  | read | failed | ignored | mismatch | notStored =>
    exact ⟨rfl, rfl, rfl, rfl, fun _ _ _ _ => rfl⟩
  | accepted =>
    refine ⟨?_, ?_, rfl, rfl, fun k g hg hgv => ?_⟩
    · exact Function.update_of_ne hne ..
    · exact Function.update_of_ne hne ..
    · -- only a connection of the handler's node is replaced
      have hk : s.registry.agents h.nodeID ≠ some k := by
        intro hk
        obtain ⟨g', hg', hid⟩ := hs.owner _ k hk
        cases hg.symm.trans hg'
        exact hv (hid.symm.trans hgv)
      simp [State.register, AgentManager.register, hk]
  | stored => exact ⟨rfl, rfl, rfl, Function.update_of_ne hne .., fun _ _ _ _ => rfl⟩
  | unregistered =>
    exact ⟨Function.update_of_ne hne .., Function.update_of_ne hne ..,
      Function.update_of_ne hne .., rfl, fun _ _ _ _ => rfl⟩
  | replaced | notMarked => exact hsame.ret rfl hc hv
  | markedOffline =>
    have hmarked : Undisturbed v s (s.markNodeOffline h.nodeID) :=
      ⟨rfl, rfl, rfl, Function.update_of_ne hne .., fun _ _ _ _ => rfl⟩
    exact hmarked.ret rfl hc hv

/-- A handler that is in `markOffline` or past it stays there. -/
def Phase.Ending : Phase → Prop
  | .leaving | .unregistered | .returned => True
  | .reading | .acting _ | .storing _ => False

theorem Moves.ending (hmoves : Moves s c h a u) (hending : h.phase.Ending) :
    (∃ ph : Phase, ph.Ending ∧
      u.handlers = Function.update s.handlers c (some { h with phase := ph })) ∧
    ∀ v, u.registry.agents v = s.registry.agents v ∨
      s.registry.agents v = some c ∧ u.registry.agents v = none := by
  cases hmoves with
  | read hphase | failed hphase | ignored hphase | mismatch hphase | accepted hphase
  | stored hphase | notStored hphase =>
    rw [hphase] at hending
    exact hending.elim
  | unregistered _ hconn =>
    refine ⟨⟨.unregistered, trivial, rfl⟩, fun v => ?_⟩
    by_cases hv : v = h.nodeID
    · subst hv
      exact Or.inr ⟨hconn, Function.update_self ..⟩
    · exact Or.inl (Function.update_of_ne hv ..)
  | replaced | markedOffline | notMarked => exact ⟨⟨.returned, trivial, rfl⟩, fun _ => Or.inl rfl⟩

/-- The handler of `c` is in `markOffline` or past it. -/
def Leaves (c : Conn) (s : State) : Prop := ∃ h, s.handlers c = some h ∧ h.phase.Ending

theorem leaves_step {a : Action} (hs : Leaves c s) (hstep : step J s a = some u) :
    Leaves c u := by
  obtain ⟨h, hc, hending⟩ := hs
  cases step_effect hstep with
  | advance | other => exact ⟨h, hc, hending⟩
  | @connected k authHeader nodeID hk =>
    have hck : c ≠ k := by
      rintro rfl
      rw [hc] at hk
      cases hk
    exact ⟨h, by simpa [State.setHandler, hck] using hc, hending⟩
  | @handler k g a _ hk hmoves =>
    by_cases hck : c = k
    · subst hck
      cases hc.symm.trans hk
      obtain ⟨⟨ph, hph, hhandlers⟩, -⟩ := hmoves.ending hending
      exact ⟨_, by rw [hhandlers, Function.update_self], hph⟩
    · obtain ⟨r, ph, hhandlers⟩ := hmoves.handlers_eq
      exact ⟨h, by rw [hhandlers, Function.update_of_ne hck, hc], hending⟩

/-- A handler that leaves takes nothing away but its own connection. -/
theorem leaves_unregisters {a : HandlerAction} (hs : Leaves c s)
    (hstep : step J s (.handler c a) = some u) (v : GoString) :
    u.registry.agents v = s.registry.agents v ∨
      s.registry.agents v = some c ∧ u.registry.agents v = none := by
  obtain ⟨h, hc, hending⟩ := hs
  cases step_effect hstep with
  | connected hk =>
    rw [hc] at hk
    cases hk
  | handler hk hmoves =>
    cases hc.symm.trans hk
    exact (hmoves.ending hending).2 v

theorem mismatch_step {message : GoString} {p : HeartbeatPayload} (hc : s.handlers c = some h)
    (hphase : h.phase = .acting message) (hp : heartbeat message = some p)
    (hmismatch : State.Mismatch h p) (hstep : step J s (.handler c .act) = some u) :
    u = s.setHandler c { h with phase := .leaving } := by
  simp only [step, hc, Handler.step, hphase, State.act, hp, if_pos hmismatch,
    Option.some.injEq] at hstep
  exact hstep.symm

theorem handler_undisturbed {a : HandlerAction} (hs : Bound J s)
    (hstep : step J s (.handler c a) = some u) (hc : u.handlers c = some h) {v : GoString}
    (hv : h.nodeID ≠ v) : Undisturbed v s u := by
  cases step_effect hstep with
  | connected => exact ⟨rfl, rfl, rfl, rfl, fun _ _ _ _ => rfl⟩
  | @handler _ g _ _ hk hmoves =>
    obtain ⟨r, ph, hhandlers⟩ := hmoves.handlers_eq
    rw [hhandlers, Function.update_self, Option.some.injEq] at hc
    subst hc
    exact moves_undisturbed hs hk hmoves hv

theorem run_bound {now : Time} {nodes : GoString → Option NodeRow} {as : List Action}
    (hrun : Machine.run (step J) (.initial now nodes) as = some s) : Bound J s :=
  Machine.run_invariant (step J) (fun _ _ _ => bound_step) (bound_initial now nodes) hrun

/-- In every reachable state the entries of a node belong to connections whose token
had it as subject, commands for it are written to these only, and a handler disturbs
no other node than the subject of its token. A heartbeat that names another node
changes nothing, and its handler takes nothing away afterwards but its own connection. -/
theorem node_identity_bound {now : Time} {nodes : GoString → Option NodeRow} {as : List Action}
    (hrun : Machine.run (step J) (.initial now nodes) as = some s) :
    (∀ v c, s.registry.agents v = some c →
      (∃ h, s.handlers c = some h ∧ authenticate J h.since h.authHeader = some v) ∧
      ∃ d, s.registry.details v = some d ∧ d.macAddress = v) ∧
    (∀ v d, s.registry.details v = some d → d.macAddress = v) ∧
    (∀ io v cmd c cmd', s.registry.sendCommand io v cmd = .ok (c, cmd') →
      ∃ h, s.handlers c = some h ∧ authenticate J h.since h.authHeader = some v) ∧
    (∀ c a u h subject, step J s (.handler c a) = some u → u.handlers c = some h →
      authenticate J h.since h.authHeader = some subject →
      ∀ v, v ≠ subject → Undisturbed v s u) ∧
    ∀ c h message p u, s.handlers c = some h → h.phase = .acting message →
      heartbeat message = some p → State.Mismatch h p → step J s (.handler c .act) = some u →
      u.registry = s.registry ∧ u.nodes = s.nodes ∧ u.closed = s.closed ∧
      ∀ bs w a x, Machine.run (step J) u bs = some w → step J w (.handler c a) = some x →
        ∀ v, x.registry.agents v = w.registry.agents v ∨
          w.registry.agents v = some c ∧ x.registry.agents v = none := by
  have hs := run_bound hrun
  have howner {v : GoString} {c : Conn} (hv : s.registry.agents v = some c) :
      ∃ h, s.handlers c = some h ∧ authenticate J h.since h.authHeader = some v := by
    obtain ⟨h, hc, rfl⟩ := hs.owner v c hv
    exact ⟨h, hc, (hs.authentic c h hc).2⟩
  refine ⟨?_, hs.details, ?_, ?_, ?_⟩
  · intro v c hv
    obtain ⟨d, hd⟩ := Option.isSome_iff_exists.mp (hs.described v c hv)
    exact ⟨howner hv, d, hd, hs.details v d hd⟩
  · intro io v cmd c cmd' hsend
    unfold AgentManager.sendCommand at hsend
    split at hsend
    · cases hsend
    · split at hsend
      · cases hsend
      · rename_i hv
        split at hsend <;> cases hsend
        exact howner hv
  · intro c a u h subject hstep hc hsubject v hv
    have hid := ((bound_step hs hstep).authentic c h hc).2
    obtain rfl : h.nodeID = subject := Option.some.inj (hid.symm.trans hsubject)
    exact handler_undisturbed hs hstep hc hv.symm
  · intro c h message p u hc hphase hp hmismatch hstep
    obtain rfl := mismatch_step hc hphase hp hmismatch hstep
    refine ⟨rfl, rfl, rfl, fun bs w a x hbs hx v => ?_⟩
    have hleaves : Leaves c (s.setHandler c { h with phase := .leaving }) :=
      ⟨_, Function.update_self .., trivial⟩
    have hw : Leaves c w :=
      Machine.run_invariant (step J) (fun _ _ _ => leaves_step) hleaves hbs
    exact leaves_unregisters hw hx v

def header (i : ℕ) : GoString := bearerPrefix ++ testToken i

def beat : GoString := ascii
  "\x7b\"type\":\"heartbeat\",\"payload\":\x7b\"mac_address\":\"aa\",\"os\":\"linux\"\x7d\x7d"

/-- Both nodes connect; `bb` sends a heartbeat of `aa`. -/
private def impersonation : List Action := [
  .handler 0 (.connect (header 0)), .handler 1 (.connect (header 1)),
  .handler 0 (.readMessage beat), .handler 0 .act, .handler 0 (.updateNodeStatus true),
  .handler 1 (.readMessage beat), .handler 1 .act, .handler 1 .unregisterConn]

theorem node_identity_bound_impersonation :
    ∃ s, Machine.run (step testJwt) (.initial 0 fun _ => none) impersonation = some s ∧
      s.registry.agents (ascii "aa") = some 0 ∧
      ∃ h, s.handlers 0 = some h ∧
        authenticate testJwt h.since h.authHeader = some (ascii "aa") := by
  have hrun : (Machine.run (step testJwt) (.initial 0 fun _ => none) impersonation).any
      (fun s => decide (s.registry.agents (ascii "aa") = some 0)) = true := by
    decide +kernel
  simp only [Option.any_eq_true, decide_eq_true_eq] at hrun
  obtain ⟨s, hs, hagent⟩ := hrun
  exact ⟨s, hs, hagent, ((node_identity_bound hs).1 _ _ hagent).1⟩

end Patchli.Websocket
