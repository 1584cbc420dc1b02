import Patchli.Websocket.Identity

/-!
# Replaced connections

`UnregisterConn` leaves the connection that replaced its own alone. A heartbeat makes
no such check: one that was read before its connection was replaced registers it
again. Without such heartbeats a replaced connection changes nothing any more.
-/

namespace Patchli.Websocket

open Fleet Auth

variable {J : Jwt} {s u w z : State} {c k : Conn} {h : Handler} {a : HandlerAction}

/-- The handler has read a heartbeat that it will register. -/
def Handler.accepts (h : Handler) : Bool :=
  match h.phase with
  | .acting message => (heartbeat message).any fun p => decide (¬ State.Mismatch h p)
  | _ => false

/-- A handler whose connection is closed neither registers a heartbeat nor changes the
status of its node. -/
def ActsWhileOpen (s : State) : Action → Prop
  | .handler c .act => ∀ h ∈ s.handlers c, h.accepts = true → s.closed c = false
  | .handler c (.updateNodeStatus true) =>
    ∀ h ∈ s.handlers c, s.closed c = false ∨ s.online h.nodeID = true
  | _ => True

instance (s : State) : ∀ a, Decidable (ActsWhileOpen s a)
  | .handler c .act =>
    inferInstanceAs (Decidable (∀ h ∈ s.handlers c, h.accepts = true → s.closed c = false))
  | .handler c (.updateNodeStatus true) => inferInstanceAs (Decidable
      (∀ h ∈ s.handlers c, s.closed c = false ∨ s.online h.nodeID = true))
  | .advance _ | .other _ | .handler _ (.connect _) | .handler _ (.readMessage _)
  | .handler _ .readError | .handler _ (.updateNodeStatus false) | .handler _ .unregisterConn
  | .handler _ (.markNodeOffline _) => isTrue trivial

/-! ### Registered connections are open -/

/-- A registered connection is open, and its handler has not unregistered it. -/
structure Live (s : State) (v : GoString) (c : Conn) (h : Handler) : Prop where
  handler : s.handlers c = some h
  node : h.nodeID = v
  registered : h.registered = true
  not_unregistered : h.phase ≠ .unregistered
  not_returned : h.phase ≠ .returned
  isOpen : s.closed c = false

def AllLive (s : State) : Prop := ∀ v c, s.registry.agents v = some c → ∃ h, Live s v c h

/-- What another handler's step leaves of a registered connection. -/
theorem AllLive.congr (hs : AllLive s) {v : GoString} (hk : s.registry.agents v = some k)
    (hhandler : u.handlers k = s.handlers k) (hclosed : u.closed k = s.closed k) :
    ∃ h, Live u v k h := by
  obtain ⟨h, hlive⟩ := hs v k hk
  exact ⟨h, { hlive with
    handler := hhandler.trans hlive.handler
    isOpen := hclosed.trans hlive.isOpen }⟩

theorem AllLive.live (hs : AllLive s) (hc : s.handlers c = some h) {v : GoString}
    (hv : s.registry.agents v = some c) : Live s v c h := by
  obtain ⟨g, hlive⟩ := hs v c hv
  cases hc.symm.trans hlive.handler
  exact hlive

theorem accepts_of {message : GoString} {p : HeartbeatPayload} (hphase : h.phase = .acting message)
    (hp : heartbeat message = some p) (hmatch : ¬ State.Mismatch h p) : h.accepts = true := by
  simp [Handler.accepts, hphase, hp, hmatch]

theorem AllLive.goto (hs : AllLive s) (hc : s.handlers c = some h) {v : GoString}
    (hv : s.registry.agents v = some k) {ph : Phase} (hclosed : u.closed = s.closed)
    (hhandlers : u.handlers = Function.update s.handlers c (some { h with phase := ph }))
    (hu : ph ≠ .unregistered) (hr : ph ≠ .returned) :
    ∃ g, Live u v k g := by
  by_cases hkc : k = c
  · subst hkc
    have hlive := hs.live hc hv
    exact ⟨{ h with phase := ph }, by rw [hhandlers, Function.update_self], hlive.node,
      hlive.registered, hu, hr, by rw [hclosed, hlive.isOpen]⟩
  · exact hs.congr hv (by rw [hhandlers, Function.update_of_ne hkc]) (by rw [hclosed])

theorem allLive_moves (hs : AllLive s) (hc : s.handlers c = some h) (hmoves : Moves s c h a u)
    (hopen : ActsWhileOpen s (.handler c a)) : AllLive u := by
  intro v k hk
  cases hmoves with
  | read | failed | ignored | mismatch | stored | notStored =>
    exact hs.goto hc hk rfl rfl (by rintro ⟨⟩) (by rintro ⟨⟩)
  | accepted hphase hp hmatch =>
    have hnew : s.closed c = false := hopen h hc (accepts_of hphase hp hmatch)
    by_cases hv : v = h.nodeID
    · subst hv
      obtain rfl : c = k := by simpa [State.register, AgentManager.register] using hk
      refine ⟨_, Function.update_self .., rfl, rfl, by rintro ⟨⟩, by rintro ⟨⟩, ?_⟩
      simp [State.register, AgentManager.register, hnew, Option.filter_eq_some_iff]
    · replace hk : s.registry.agents v = some k := by
        simpa [State.register, AgentManager.register, hv] using hk
      have hkc : k ≠ c := by
        rintro rfl
        exact hv (hs.live hc hk).node.symm
      -- the connection that is closed was registered for the handler's node
      have hold : s.registry.agents h.nodeID ≠ some k := by
        intro hold
        obtain ⟨g, hlive⟩ := hs v k hk
        exact hv (hlive.node.symm.trans (hs.live hlive.handler hold).node)
      exact hs.congr hk (Function.update_of_ne hkc ..)
        (by simp [State.register, AgentManager.register, hold])
  | unregistered =>
    by_cases hv : v = h.nodeID
    · simp [State.setHandler, AgentManager.unregister, hv] at hk
    · replace hk : s.registry.agents v = some k := by
        simpa [State.setHandler, AgentManager.unregister, hv] using hk
      have hkc : k ≠ c := by
        rintro rfl
        exact hv (hs.live hc hk).node.symm
      exact hs.congr hk (Function.update_of_ne hkc ..) rfl
  | replaced hphase hout =>
    have hkc : k ≠ c := by
      rintro rfl
      have hlive := hs.live hc hk
      have hnode := hlive.node
      subst hnode
      rcases hout with hout | hout
      · rw [hlive.registered] at hout
        cases hout
      · exact hout hk
    exact hs.congr hk (Function.update_of_ne hkc ..) (Function.update_of_ne hkc ..)
  | markedOffline hphase | notMarked hphase =>
    have hkc : k ≠ c := by
      rintro rfl
      exact (hs.live hc hk).not_unregistered hphase
    exact hs.congr hk (Function.update_of_ne hkc ..) (Function.update_of_ne hkc ..)

theorem allLive_step {x : Action} (hs : AllLive s) (hopen : ActsWhileOpen s x)
    (hstep : step J s x = some u) : AllLive u := by
  cases step_effect hstep with
  | advance => exact fun v k hk => hs.congr hk rfl rfl
  | other => exact fun v k hk => hs.congr (OtherCall.agents_run hk) rfl rfl
  | @connected c authHeader nodeID hc =>
    intro v k hk
    obtain ⟨g, hlive⟩ := hs v k hk
    have hkc : k ≠ c := by
      rintro rfl
      cases hc.symm.trans hlive.handler
    exact hs.congr hk (Function.update_of_ne hkc ..) rfl
  | handler hc hmoves => exact allLive_moves hs hc hmoves hopen

/-! ### Replaced connections -/

/-- The connection is closed and its handler is not about to mark its node offline. -/
def Replaced (c : Conn) (s : State) : Prop :=
  s.closed c = true ∧ ∃ h, s.handlers c = some h ∧ h.phase ≠ .unregistered

theorem Moves.closed_mono (hmoves : Moves s c h a u) (hk : s.closed k = true) :
    u.closed k = true := by
  cases hmoves with
  | read | failed | ignored | mismatch | stored | notStored | unregistered => exact hk
  | accepted => simp [State.register, hk]
  | replaced | markedOffline | notMarked =>
    by_cases hkc : k = c
    · subst hkc
      exact Function.update_self ..
    · exact (Function.update_of_ne hkc ..).trans hk

theorem replaced_of_register {x : Action} {v : GoString} {A B : Conn} (hs : AllLive s)
    (hstep : step J s x = some u) (hA : s.registry.agents v = some A)
    (hB : u.registry.agents v = some B) (hAB : A ≠ B) : Replaced A u := by
  have hdiffers : u.registry.agents v ≠ s.registry.agents v := by
    rw [hA, hB]
    exact fun h => hAB (Option.some.inj h).symm
  cases step_effect hstep with
  | advance | connected => exact absurd rfl hdiffers
  | other => exact absurd (OtherCall.agents_run hB ▸ hA) (by simpa using hAB.symm)
  | @handler c h _ _ hc hmoves =>
    cases hmoves with
    | read | failed | ignored | mismatch | stored | notStored | replaced | markedOffline
    | notMarked => exact absurd rfl hdiffers
    | unregistered =>
      by_cases hv : v = h.nodeID
      · simp [State.setHandler, AgentManager.unregister, hv] at hB
      · exact absurd (Function.update_of_ne hv ..) hdiffers
    | accepted =>
      by_cases hv : v = h.nodeID
      · subst hv
        obtain rfl : c = B := by simpa [State.register, AgentManager.register] using hB
        obtain ⟨g, hlive⟩ := hs _ A hA
        refine ⟨?_, g, (Function.update_of_ne hAB ..).trans hlive.handler, hlive.not_unregistered⟩
        simp [State.register, AgentManager.register, hA, hAB]
      · exact absurd (Function.update_of_ne hv ..) hdiffers

theorem replaced_moves (hs : AllLive s) (hreplaced : Replaced c s) (hc : s.handlers c = some h)
    (hmoves : Moves s c h a u) (hopen : ActsWhileOpen s (.handler c a)) :
    (∃ ph : Phase, u.handlers = Function.update s.handlers c (some { h with phase := ph }) ∧
      ph ≠ .unregistered) ∧
    u.registry = s.registry ∧ (∀ k, k ≠ c → u.closed k = s.closed k) ∧
    ∀ v, u.status v = s.status v := by
  obtain ⟨hclosed, g, hg, hphase'⟩ := hreplaced
  cases hc.symm.trans hg
  cases hmoves with
  | read | failed | ignored | mismatch | notStored =>
    exact ⟨⟨_, rfl, by rintro ⟨⟩⟩, rfl, fun _ _ => rfl, fun _ => rfl⟩
  | accepted hphase hp hmatch =>
    rw [hopen h hc (accepts_of hphase hp hmatch)] at hclosed
    cases hclosed
  | @stored p hphase =>
    refine ⟨⟨_, rfl, by rintro ⟨⟩⟩, rfl, fun _ _ => rfl, fun v => ?_⟩
    rcases hopen h hc with hfalse | honline
    · rw [hfalse] at hclosed
      cases hclosed
    · by_cases hv : v = h.nodeID
      · subst hv
        rw [of_decide_eq_true honline]
        simp [State.status, State.setHandler, State.updateNodeStatus]
      · simp [State.status, State.setHandler, State.updateNodeStatus, hv]
  | unregistered _ hconn =>
    rw [(hs.live hc hconn).isOpen] at hclosed
    cases hclosed
  | replaced =>
    exact ⟨⟨.returned, rfl, by rintro ⟨⟩⟩, rfl, fun k hk => Function.update_of_ne hk ..,
      fun _ => rfl⟩
  | markedOffline hphase | notMarked hphase => exact absurd hphase hphase'

theorem replaced_step {x : Action} (hs : AllLive s) (hreplaced : Replaced c s)
    (hopen : ActsWhileOpen s x) (hstep : step J s x = some u) : Replaced c u := by
  obtain ⟨hclosed, h, hc, hphase⟩ := hreplaced
  cases step_effect hstep with
  | advance | other => exact ⟨hclosed, h, hc, hphase⟩
  | @connected k authHeader nodeID hk =>
    have hck : c ≠ k := by
      rintro rfl
      rw [hc] at hk
      cases hk
    exact ⟨hclosed, h, (Function.update_of_ne hck ..).trans hc, hphase⟩
  | @handler k g a _ hk hmoves =>
    by_cases hck : c = k
    · subst hck
      obtain ⟨⟨ph, hhandlers, hph⟩, -⟩ :=
        replaced_moves hs ⟨hclosed, h, hc, hphase⟩ hk hmoves hopen
      exact ⟨hmoves.closed_mono hclosed, _, by rw [hhandlers, Function.update_self], hph⟩
    · obtain ⟨r, ph, hhandlers⟩ := hmoves.handlers_eq
      exact ⟨hmoves.closed_mono hclosed, h, by rw [hhandlers, Function.update_of_ne hck, hc],
        hphase⟩

/-- In a run in which no handler registers a heartbeat after its connection was closed,
or changes a status then, a replaced connection changes nothing any more: neither the
registry, nor a status, nor whether another connection is open. -/
theorem replaced_connection_changes_nothing {now : Time} {nodes : GoString → Option NodeRow}
    {as bs : List Action} {x : Action} {v : GoString} {A B : Conn}
    (hopen : Machine.Meets (step J) ActsWhileOpen (.initial now nodes)
      (as ++ x :: (bs ++ [.handler A a])))
    (has : Machine.run (step J) (.initial now nodes) as = some s)
    (hx : step J s x = some u) (hA : s.registry.agents v = some A)
    (hB : u.registry.agents v = some B) (hAB : A ≠ B)
    (hbs : Machine.run (step J) u bs = some w) (hstep : step J w (.handler A a) = some z) :
    z.registry = w.registry ∧ (∀ k, k ≠ A → z.closed k = w.closed k) ∧
      ∀ m, z.status m = w.status m := by
  obtain ⟨hopenas, hopenx, hopenu⟩ := Machine.meets_append (step J) has hopen
  obtain ⟨hopenbs, hopenw⟩ := Machine.meets_append (step J) hbs (hopenu u hx)
  have hinitial : AllLive (.initial now nodes) := by
    intro v k hk
    cases hk
  have hlive : AllLive s := Machine.run_invariant_of_meets (step J)
    (fun s a t hs hC ht => allLive_step hs hC ht) hinitial hopenas has
  obtain ⟨hlivew, hreplaced⟩ : AllLive w ∧ Replaced A w := by
    refine Machine.run_invariant_of_meets (step J) (I := fun s => AllLive s ∧ Replaced A s) ?_
      ⟨allLive_step hlive hopenx hx, replaced_of_register hlive hx hA hB hAB⟩ hopenbs hbs
    rintro s a t ⟨hs, hr⟩ hC ht
    exact ⟨allLive_step hs hC ht, replaced_step hs hr hC ht⟩
  cases step_effect hstep with
  | connected hk =>
    obtain ⟨-, h, hc, -⟩ := hreplaced
    rw [hc] at hk
    cases hk
  | handler hk hmoves => exact (replaced_moves hlivew hreplaced hk hmoves hopenw.1).2

/-- Connection 0 registers and connection 1 is about to replace it. -/
private def reconnect (rest : List Action) : List Action := [
  .handler 0 (.connect (header 0)), .handler 0 (.readMessage beat), .handler 0 .act,
  .handler 0 (.updateNodeStatus true)] ++ rest ++
  [.handler 1 (.connect (header 0)), .handler 1 (.readMessage beat)]

theorem replaced_connection_changes_nothing_leaving : ∃ s u w z,
    Machine.run (step testJwt) (.initial 0 fun _ => none) (reconnect []) = some s ∧
    step testJwt s (.handler 1 .act) = some u ∧
    Machine.run (step testJwt) u [.handler 0 .readError] = some w ∧
    step testJwt w (.handler 0 .unregisterConn) = some z ∧ z.registry = w.registry := by
  have heval : (Machine.run (step testJwt) (.initial 0 fun _ => none)
        (reconnect [])).any (fun s => (step testJwt s (.handler 1 .act)).any fun u =>
          decide (s.registry.agents (ascii "aa") = some 0) &&
          decide (u.registry.agents (ascii "aa") = some 1) &&
          (Machine.run (step testJwt) u [.handler 0 .readError]).any fun w =>
            (step testJwt w (.handler 0 .unregisterConn)).isSome) = true ∧
      Machine.Meets (step testJwt) ActsWhileOpen (.initial 0 fun _ => none)
        (reconnect [] ++ .handler 1 .act :: ([.handler 0 .readError] ++
          [.handler 0 .unregisterConn])) := by
    decide +kernel
  obtain ⟨hrun, hopen⟩ := heval
  simp only [Option.any_eq_true, Bool.and_eq_true, decide_eq_true_eq] at hrun
  obtain ⟨s, hs, u, hu, ⟨hA, hB⟩, w, hw, hz⟩ := hrun
  obtain ⟨z, hz⟩ := Option.isSome_iff_exists.mp hz
  exact ⟨s, u, w, z, hs, hu, hw, hz,
    (replaced_connection_changes_nothing hopen hs hu hA hB (by decide) hw hz).1⟩

/-- A heartbeat that connection 0 had read before it was replaced registers it again
and closes its successor, though nobody else connects. -/
theorem not_replaced_connection_harmless :
    ¬ ∀ (J : Jwt) (now : Time) (nodes : GoString → Option NodeRow) (as bs : List Action)
      (x : Action) (a : HandlerAction) (v : GoString) (A B : Conn) (s u w z : State),
      Machine.run (step J) (.initial now nodes) as = some s → step J s x = some u →
      s.registry.agents v = some A → u.registry.agents v = some B → A ≠ B →
      Machine.run (step J) u bs = some w → step J w (.handler A a) = some z →
      (∀ c authHeader, .handler c (.connect authHeader) ∈ as ++ x :: bs → c = A ∨ c = B) →
      z.registry.agents v = w.registry.agents v ∧ z.closed B = w.closed B := by
  intro h
  have hrun : (Machine.run (step testJwt) (.initial 0 fun _ => none)
      (reconnect [.handler 0 (.readMessage beat)])).any (fun s =>
        (step testJwt s (.handler 1 .act)).any fun u =>
          decide (s.registry.agents (ascii "aa") = some 0) &&
          decide (u.registry.agents (ascii "aa") = some 1) &&
          (step testJwt u (.handler 0 .act)).any fun z =>
            decide (z.registry.agents (ascii "aa") = some 0)) = true := by
    decide +kernel
  simp only [Option.any_eq_true, Bool.and_eq_true, decide_eq_true_eq] at hrun
  obtain ⟨s, hs, u, hu, ⟨hA, hB⟩, z, hz, hevicted⟩ := hrun
  have honly : ∀ c authHeader, .handler c (.connect authHeader) ∈
      reconnect [.handler 0 (.readMessage beat)] ++ [.handler 1 .act] → c = 0 ∨ c = 1 := by
    simp only [reconnect, List.cons_append, List.nil_append, List.mem_cons, Action.handler.injEq,
      reduceCtorEq, and_false, false_or, or_false, List.not_mem_nil]
    rintro c authHeader (⟨rfl, -⟩ | ⟨rfl, -⟩)
    · exact Or.inl rfl
    · exact Or.inr rfl
  obtain ⟨hsame, -⟩ := h testJwt 0 (fun _ => none) _ [] _ _ _ 0 1 s u u z hs hu hA hB (by decide)
    rfl hz honly
  rw [hevicted, hB] at hsame
  cases hsame

end Patchli.Websocket
