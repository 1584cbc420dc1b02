import Patchli.Websocket.Identity

/-!
# Online in the database and in the registry

A handler writes the status of its node after its call of the registry, and nothing
orders the writes of two handlers. The two stores agree again whenever no write is
outstanding, as long as no write came too late: behind the registry's next change and
with no other write of the node to follow.
-/

namespace Patchli.Websocket

open Fleet Auth

variable {J : Jwt} {s u : State} {c : Conn} {h : Handler} {a : HandlerAction} {v : GoString}

def Phase.Storing : Phase → Prop
  | .storing _ => True
  | .reading | .acting _ | .leaving | .unregistered | .returned => False

/-- The handler owes the database a write. -/
def Phase.Outstanding (ph : Phase) : Prop := ph.Storing ∨ ph = .unregistered

/-- Some handler of the node is in such a phase. -/
def State.Has (s : State) (v : GoString) (P : Phase → Prop) : Prop :=
  ∃ c h, s.handlers c = some h ∧ h.nodeID = v ∧ P h.phase

/-- Some handler of the node, apart from that of `c`. -/
def State.HasOther (s : State) (c : Conn) (v : GoString) (P : Phase → Prop) : Prop :=
  ∃ k h, k ≠ c ∧ s.handlers k = some h ∧ h.nodeID = v ∧ P h.phase

/-- SQL succeeds, and entries are removed by the handlers only. -/
def Regular : Action → Prop
  | .other (.unregister _) | .other (.pruneStaleAgents _) => False
  | .handler _ (.updateNodeStatus ok) | .handler _ (.markNodeOffline ok) => ok = true
  | .advance _ | .other _ | .handler _ _ => True

instance : DecidablePred Regular
  | .other (.unregister _) | .other (.pruneStaleAgents _) => isFalse id
  | .handler _ (.updateNodeStatus ok) | .handler _ (.markNodeOffline ok) =>
    inferInstanceAs (Decidable (ok = true))
  | .advance _ | .other (.setStatus _ _) | .other (.acquireJob _ _) | .other (.releaseJob _)
  | .handler _ (.connect _) | .handler _ (.readMessage _) | .handler _ .readError
  | .handler _ .act | .handler _ .unregisterConn => isTrue trivial

/-- A write of the database is in time: the registry still says the same, or another
handler will write the opposite. -/
def WritesInTime (s : State) : Action → Prop
  | .handler c (.updateNodeStatus _) => ∀ h ∈ s.handlers c,
    s.registry.agents h.nodeID ≠ none ∨ s.HasOther c h.nodeID (· = .unregistered)
  | .handler c (.markNodeOffline _) => ∀ h ∈ s.handlers c,
    s.registry.agents h.nodeID = none ∨ s.HasOther c h.nodeID Phase.Storing
  | _ => True

theorem State.HasOther.has {P : Phase → Prop} {h' : Handler} (hother : s.HasOther c v P)
    (hhandlers : u.handlers = Function.update s.handlers c (some h')) : u.Has v P := by
  obtain ⟨k, g, hk, hg, hv, hP⟩ := hother
  exact ⟨k, g, by rw [hhandlers, Function.update_of_ne hk, hg], hv, hP⟩

/-- A step of a handler that is not in such a phase, or of another node. -/
theorem State.Has.update {P : Phase → Prop} {h' : Handler} (hhas : s.Has v P)
    (hc : s.handlers c = some h) (hP : ¬ P h.phase ∨ v ≠ h.nodeID)
    (hhandlers : u.handlers = Function.update s.handlers c (some h')) : u.Has v P := by
  obtain ⟨k, g, hg, hv, hg'⟩ := hhas
  refine State.HasOther.has ⟨k, g, ?_, hg, hv, hg'⟩ hhandlers
  rintro rfl
  cases hc.symm.trans hg
  rcases hP with hP | hP
  · exact hP hg'
  · exact hP hv.symm

/-- The stores agree about a node, apart from writes that are outstanding. -/
structure Agree (s : State) (v : GoString) : Prop where
  online : s.registry.agents v ≠ none → s.online v = true ∨ s.Has v Phase.Storing
  offline : v ∈ s.heartbeats → s.registry.agents v = none →
    s.online v = false ∨ s.Has v (· = .unregistered)

theorem Agree.congr (hs : Agree s v) (hagents : u.registry.agents v = s.registry.agents v)
    (hstatus : u.status v = s.status v) (hheard : v ∈ u.heartbeats → v ∈ s.heartbeats)
    (hhas : ∀ P : Phase → Prop, (∀ ph, P ph → ph.Outstanding) → s.Has v P → u.Has v P) :
    Agree u v := by
  have honline : u.online v = s.online v := by rw [State.online, hstatus, State.online]
  constructor
  · intro hv
    rw [honline]
    rw [hagents] at hv
    exact (hs.online hv).imp_right (hhas _ fun _ => Or.inl)
  · intro hheartbeat hv
    rw [honline]
    rw [hagents] at hv
    exact (hs.offline (hheard hheartbeat) hv).imp_right (hhas _ fun _ => Or.inr)

theorem agree_moves (hs : Agree s v) (hc : s.handlers c = some h) (hmoves : Moves s c h a u)
    (hregular : Regular (.handler c a)) (htime : WritesInTime s (.handler c a)) : Agree u v := by
  -- a handler in a phase with no outstanding write
  have hquiet {h' : Handler} (hphase : ¬ h.phase.Outstanding)
      (hhandlers : u.handlers = Function.update s.handlers c (some h')) (P : Phase → Prop)
      (hP : ∀ ph, P ph → ph.Outstanding) (hhas : s.Has v P) : u.Has v P :=
    hhas.update hc (Or.inl fun h => hphase (hP _ h)) hhandlers
  -- a handler of another node
  have hforeign {h' : Handler} (hv : v ≠ h.nodeID)
      (hhandlers : u.handlers = Function.update s.handlers c (some h')) (P : Phase → Prop)
      (_ : ∀ ph, P ph → ph.Outstanding) (hhas : s.Has v P) : u.Has v P :=
    hhas.update hc (Or.inr hv) hhandlers
  cases hmoves with
  | read hphase | failed hphase | ignored hphase | mismatch hphase | replaced hphase =>
    refine hs.congr rfl rfl id (hquiet ?_ rfl)
    simp [Phase.Outstanding, Phase.Storing, hphase]
  | accepted hphase =>
    by_cases hv : v = h.nodeID
    · subst hv
      refine ⟨fun _ => Or.inr ⟨c, _, Function.update_self .., rfl, trivial⟩, fun _ hnone => ?_⟩
      simp [State.register, AgentManager.register] at hnone
    · refine hs.congr (Function.update_of_ne hv ..) rfl (fun hheard => ?_) (hforeign hv rfl)
      simpa [State.register, hv] using hheard
  | stored hphase =>
    by_cases hv : v = h.nodeID
    · subst hv
      refine ⟨fun _ => Or.inl ?_, fun _ hnone => ?_⟩
      · simp [State.online, State.status, State.setHandler, State.updateNodeStatus]
      · rcases htime h hc with hregistered | hother
        · exact absurd hnone hregistered
        · exact Or.inr (hother.has rfl)
    · refine hs.congr rfl ?_ id (hforeign hv rfl)
      simp [State.status, State.setHandler, State.updateNodeStatus, hv]
  | unregistered hphase hconn =>
    by_cases hv : v = h.nodeID
    · subst hv
      refine ⟨fun hsome => ?_, fun _ _ => Or.inr ⟨c, _, Function.update_self .., rfl, rfl⟩⟩
      simp [State.setHandler, AgentManager.unregister] at hsome
    · exact hs.congr (Function.update_of_ne hv ..) rfl id (hforeign hv rfl)
  | markedOffline hphase =>
    by_cases hv : v = h.nodeID
    · subst hv
      refine ⟨fun hsome => ?_, fun _ _ => Or.inl ?_⟩
      · rcases htime h hc with hnone | hother
        · exact absurd hnone hsome
        · exact Or.inr (hother.has rfl)
      · cases hrow : s.nodes h.nodeID <;>
          simp [State.online, State.status, State.ret, State.close, State.setHandler,
            State.markNodeOffline, hrow]
        decide
    · refine hs.congr rfl ?_ id (hforeign hv rfl)
      simp [State.status, State.ret, State.close, State.setHandler, State.markNodeOffline, hv]
  | notStored | notMarked => cases hregular

theorem agree_step {x : Action} (hs : Agree s v) (hregular : Regular x) (htime : WritesInTime s x)
    (hstep : step J s x = some u) : Agree u v := by
  cases step_effect hstep with
  | advance => exact ⟨hs.online, hs.offline⟩
  | @other call =>
    refine hs.congr ?_ rfl id fun _ _ hhas => hhas
    cases call with
    | unregister | pruneStaleAgents => exact hregular.elim
    | setStatus | releaseJob => rfl
    | acquireJob mac jobID =>
      simp only [OtherCall.run, AgentManager.acquireJob]
      split <;> rfl
  | connected hc =>
    refine hs.congr rfl rfl id ?_
    rintro P - ⟨k, g, hg, hv, hP⟩
    refine ⟨k, g, (Function.update_of_ne ?_ ..).trans hg, hv, hP⟩
    rintro rfl
    rw [hc] at hg
    cases hg
  | handler hc hmoves => exact agree_moves hs hc hmoves hregular htime

/-- Whenever no handler owes a write, the database says that a node is online exactly
when the registry holds a connection for it, for the nodes that sent a heartbeat, as
long as every write was in time. -/
theorem status_agrees {now : Time} {nodes : GoString → Option NodeRow} {as : List Action}
    (hmeets : Machine.Meets (step J) (fun s a => Regular a ∧ WritesInTime s a)
      (.initial now nodes) as)
    (hrun : Machine.run (step J) (.initial now nodes) as = some s)
    (hquiet : ∀ c h, s.handlers c = some h → ¬ h.phase.Outstanding) :
    ∀ v ∈ s.heartbeats, s.online v = true ↔ s.registry.agents v ≠ none := by
  intro v hv
  have hinitial : Agree (.initial now nodes) v :=
    ⟨fun hsome => absurd rfl hsome, fun hmem => nomatch hmem⟩
  have hs : Agree s v := Machine.run_invariant_of_meets (step J)
    (fun s a t hs hC ht => agree_step hs hC.1 hC.2 ht) hinitial hmeets hrun
  have hnone {P : Phase → Prop} (hP : ∀ ph, P ph → ph.Outstanding) : ¬ s.Has v P := by
    rintro ⟨c, h, hc, -, hph⟩
    exact hquiet c h hc (hP _ hph)
  constructor
  · intro honline hagents
    rcases hs.offline hv hagents with hoffline | hhas
    · rw [honline] at hoffline
      cases hoffline
    · exact hnone (fun _ => Or.inr) hhas
  · intro hagents
    exact (hs.online hagents).resolve_right (hnone fun _ => Or.inl)

/-! ### A disconnect and a reconnect -/

def Action.conn : Action → Option Conn
  | .handler c _ => some c
  | .advance _ | .other _ => none

theorem run_handlers_eq {as : List Action} (has : ∀ a ∈ as, a.conn ≠ some c)
    (hrun : Machine.run (step J) s as = some u) : u.handlers c = s.handlers c := by
  refine Machine.run_invariant_of_meets (step J) (C := fun _ a => a.conn ≠ some c)
    (I := fun t => t.handlers c = s.handlers c) ?_ rfl
    (Machine.meets_of_forall (step J) fun a ha _ => has a ha) hrun
  intro t a w ht hne hstep
  cases step_effect hstep with
  | advance | other => exact ht
  | connected =>
    refine (Function.update_of_ne ?_ ..).trans ht
    rintro rfl
    exact hne rfl
  | handler hc hmoves =>
    obtain ⟨r, ph, hhandlers⟩ := hmoves.handlers_eq
    rw [hhandlers]
    refine (Function.update_of_ne ?_ ..).trans ht
    rintro rfl
    exact hne rfl

/-- Connection 0 of node `aa` breaks off and connection 1 registers; where connection 0
writes its status is left open. -/
private def reconnection (before after : List Action) : List Action := [
  .handler 0 (.connect (header 0)), .handler 0 (.readMessage beat), .handler 0 .act,
  .handler 0 (.updateNodeStatus true), .handler 0 .readError, .handler 0 .unregisterConn] ++
  before ++ [.handler 1 (.connect (header 0)), .handler 1 (.readMessage beat), .handler 1 .act,
  .handler 1 (.updateNodeStatus true)] ++ after

private def quiet (h : Handler) : Bool :=
  match h.phase with
  | .reading | .returned => true
  | _ => false

/-- A write of the database finds the registry as its handler left it. -/
private def Behind (s : State) : Action → Prop
  | .other _ | .handler _ (.updateNodeStatus false) | .handler _ (.markNodeOffline false) => False
  | .handler c (.updateNodeStatus true) => ∀ h ∈ s.handlers c, s.registry.agents h.nodeID ≠ none
  | .handler c (.markNodeOffline true) => ∀ h ∈ s.handlers c, s.registry.agents h.nodeID = none
  | _ => True

private instance (s : State) : ∀ a, Decidable (Behind s a)
  | .other _ | .handler _ (.updateNodeStatus false) | .handler _ (.markNodeOffline false) =>
    isFalse id
  | .handler c (.updateNodeStatus true) =>
    inferInstanceAs (Decidable (∀ h ∈ s.handlers c, s.registry.agents h.nodeID ≠ none))
  | .handler c (.markNodeOffline true) =>
    inferInstanceAs (Decidable (∀ h ∈ s.handlers c, s.registry.agents h.nodeID = none))
  | .advance _ | .handler _ (.connect _) | .handler _ (.readMessage _) | .handler _ .readError
  | .handler _ .act | .handler _ .unregisterConn => isTrue trivial

private theorem behind_inTime {s : State} :
    ∀ {a : Action}, Behind s a → Regular a ∧ WritesInTime s a
  | .handler _ (.updateNodeStatus true), hs => ⟨rfl, fun h hc => Or.inl (hs h hc)⟩
  | .handler _ (.markNodeOffline true), hs => ⟨rfl, fun h hc => Or.inl (hs h hc)⟩
  | .advance _, _ | .handler _ (.connect _), _ | .handler _ (.readMessage _), _
  | .handler _ .readError, _ | .handler _ .act, _ | .handler _ .unregisterConn, _ =>
    ⟨trivial, trivial⟩

/-- In a run of connections 0 and 1 it is enough to look at these two. -/
private theorem quiet_of_two {as : List Action} {s : State}
    (has : ∀ a ∈ as, a.conn = some 0 ∨ a.conn = some 1)
    (hrun : Machine.run (step testJwt) (.initial 0 fun _ => none) as = some s)
    (hquiet : (s.handlers 0).all quiet = true ∧ (s.handlers 1).all quiet = true) :
    ∀ c h, s.handlers c = some h → ¬ h.phase.Outstanding := by
  intro c h hc
  have hph : quiet h = true := by
    by_cases h0 : c = 0
    · subst h0
      simpa [hc] using hquiet.1
    by_cases h1 : c = 1
    · subst h1
      simpa [hc] using hquiet.2
    have hnone : s.handlers c = none := run_handlers_eq (fun a ha => by
      rcases has a ha with hconn | hconn <;> simp [hconn, Ne.symm h0, Ne.symm h1]) hrun
    rw [hc] at hnone
    cases hnone
  unfold quiet at hph
  rintro (hstoring | hunregistered)
  · split at hph <;> simp_all [Phase.Storing]
  · simp [hunregistered] at hph

/-- The writes are in time when connection 0 writes its status before the other one
registers. -/
theorem status_agrees_reconnection :
    ∃ s, Machine.run (step testJwt) (.initial 0 fun _ => none)
        (reconnection [.handler 0 (.markNodeOffline true)] []) = some s ∧
      s.heartbeats = [ascii "aa", ascii "aa"] ∧
      ∀ v ∈ s.heartbeats, s.online v = true ↔ s.registry.agents v ≠ none := by
  have heval : (Machine.run (step testJwt) (.initial 0 fun _ => none)
        (reconnection [.handler 0 (.markNodeOffline true)] [])).any (fun s =>
          decide (s.heartbeats = [ascii "aa", ascii "aa"]) &&
          decide ((s.handlers 0).all quiet = true ∧ (s.handlers 1).all quiet = true)) = true ∧
      Machine.Meets (step testJwt) Behind (.initial 0 fun _ => none)
        (reconnection [.handler 0 (.markNodeOffline true)] []) := by
    decide +kernel
  obtain ⟨hrun, hmeets⟩ := heval
  simp only [Option.any_eq_true, Bool.and_eq_true, decide_eq_true_eq] at hrun
  obtain ⟨s, hs, hheard, hquiet⟩ := hrun
  exact ⟨s, hs, hheard, status_agrees (hmeets.mono _ fun s a => behind_inTime) hs
    (quiet_of_two (by decide) hs hquiet)⟩

/-- Connection 0 marks its node offline after connection 1 marked it online. -/
theorem not_status_agrees :
    ¬ ∀ (J : Jwt) (now : Time) (nodes : GoString → Option NodeRow) (as : List Action) (s : State),
      (∀ a ∈ as, Regular a) → Machine.run (step J) (.initial now nodes) as = some s →
      (∀ c h, s.handlers c = some h → ¬ h.phase.Outstanding) →
      ∀ v ∈ s.heartbeats, s.online v = true ↔ s.registry.agents v ≠ none := by
  intro h
  have hrun : (Machine.run (step testJwt) (.initial 0 fun _ => none)
      (reconnection [] [.handler 0 (.markNodeOffline true)])).any (fun s =>
        decide (ascii "aa" ∈ s.heartbeats ∧ s.online (ascii "aa") = false ∧
          s.registry.agents (ascii "aa") = some 1) &&
        decide ((s.handlers 0).all quiet = true ∧ (s.handlers 1).all quiet = true)) = true := by
    decide +kernel
  simp only [Option.any_eq_true, Bool.and_eq_true, decide_eq_true_eq] at hrun
  obtain ⟨s, hs, ⟨hheard, hoffline, hagent⟩, hquiet⟩ := hrun
  have hagree := h testJwt 0 (fun _ => none) _ s (by decide) hs
    (quiet_of_two (by decide) hs hquiet) _ hheard
  rw [hoffline, hagent] at hagree
  exact absurd (hagree.mpr nofun) nofun

end Patchli.Websocket
