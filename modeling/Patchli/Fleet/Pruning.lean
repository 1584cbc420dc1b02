import Patchli.Fleet.Registry

/-!
# Pruning of stale agents

What `PruneStaleAgents` removes from a registry that any calls have produced. A heartbeat
is kept in whole seconds, while clock readings are finer.
-/

namespace Patchli.Fleet

/-- The calls that may precede a pruning. -/
inductive Op
  | register (mac : GoString) (conn : Conn) (p : HeartbeatPayload)
  | unregister (mac : GoString)
  | unregisterConn (mac : GoString) (conn : Conn)
  | acquireJob (mac jobID : GoString)
  | setStatus (id status : GoString)

namespace AgentManager

def apply (am : AgentManager) : Time × Op → AgentManager
  | (now, .register mac conn p) => (am.register now mac conn p).1
  | (_, .unregister mac) => am.unregister mac
  | (_, .unregisterConn mac conn) => (am.unregisterConn mac conn).1
  | (_, .acquireJob mac jobID) => (am.acquireJob mac jobID).getD am
  | (_, .setStatus id status) => am.setStatus id status

def run (ops : List (Time × Op)) : AgentManager := ops.foldl apply empty

def entries (am : AgentManager) (mac : GoString) :
    Option Conn × Option AgentDetails × Option GoString :=
  (am.agents mac, am.details mac, am.activeJobs mac)

end AgentManager

open AgentManager

/-- The clock reading of the last registration, before the call it was `last`. -/
def registered (mac : GoString) (last : Option Time) : Time × Op → Option Time
  | (now, .register m _ _) => if m = mac then some now else last
  | _ => last

def lastRegister (ops : List (Time × Op)) (mac : GoString) : Option Time :=
  ops.foldl (registered mac) none

/-! ### The heartbeat of a node -/

/-- The details of `mac` hold its last registration in whole seconds. -/
def Tracks (mac : GoString) (am : AgentManager) (last : Option Time) : Prop :=
  (am.details mac).map (fun a => a.lastHeartbeat) = last.map formatRFC3339

variable {mac : GoString} {am : AgentManager} {last : Option Time}

theorem Tracks.unregister (h : Tracks mac am last) (m : GoString) :
    Tracks mac (am.unregister m) last := by
  by_cases hm : mac = m
  · subst hm
    simpa [Tracks, AgentManager.unregister, Function.comp_def] using h
  · simpa [Tracks, AgentManager.unregister, hm] using h

theorem tracks_apply (h : Tracks mac am last) (e : Time × Op) :
    Tracks mac (am.apply e) (registered mac last e) := by
  obtain ⟨now, op⟩ := e
  cases op with
  | register m conn p =>
    by_cases hm : m = mac
    · subst hm
      simp [Tracks, apply, registered, register]
    · have hne : mac ≠ m := Ne.symm hm
      simpa [Tracks, apply, registered, register, hm, hne] using h
  | unregister m => exact h.unregister m
  | unregisterConn m conn =>
    simp only [apply, registered, AgentManager.unregisterConn]
    split
    · exact h.unregister m
    · exact h
  | acquireJob m jobID =>
    simp only [apply, registered, acquireJob]
    split
    · exact h
    · exact h
  | setStatus id status =>
    by_cases hm : mac = id
    · subst hm
      simpa [Tracks, apply, registered, setStatus, Function.comp_def] using h
    · simpa [Tracks, apply, registered, setStatus, hm] using h

theorem tracks_run (ops : List (Time × Op)) (mac : GoString) :
    Tracks mac (run ops) (lastRegister ops mac) := by
  have hfold : ∀ (am : AgentManager) (last : Option Time), Tracks mac am last →
      Tracks mac (ops.foldl apply am) (ops.foldl (registered mac) last) := by
    induction ops with
    | nil =>
      intro am last h
      exact h
    | cons e ops ih =>
      intro am last h
      exact ih _ _ (tracks_apply h e)
  exact hfold empty none rfl

/-! ### What is pruned -/

theorem prune_of_stale {now : Time} {ttl : Duration}
    (h : (am.details mac).any (stale now ttl) = true) :
    (am.pruneStaleAgents now ttl).entries mac = (none, none, none) := by
  simp [entries, pruneStaleAgents, h]

theorem prune_of_not_stale {now : Time} {ttl : Duration}
    (h : (am.details mac).any (stale now ttl) = false) :
    (am.pruneStaleAgents now ttl).entries mac = am.entries mac := by
  simp [entries, pruneStaleAgents, h]

/-- The second in which the last registration fell is what is compared. -/
theorem stale_iff {ops : List (Time × Op)} {registration : Time}
    (h : lastRegister ops mac = some registration) (now : Time) (ttl : Duration) :
    ((run ops).details mac).any (stale now ttl) = true ↔
      registration - registration % second < now - ttl := by
  have htracks := tracks_run ops mac
  rw [Tracks, h, Option.map_some, Option.map_eq_some_iff] at htracks
  obtain ⟨a, ha, hlast⟩ := htracks
  rw [ha, Option.any_some, stale, hlast]
  simp [formatRFC3339]

/-- Pruning removes the node if it is older than `ttl`, and otherwise leaves it alone. -/
structure PrunedRight (am : AgentManager) (now : Time) (ttl : Duration) (mac : GoString)
    (registration : Time) : Prop where
  removed : ttl < now - registration →
    (am.pruneStaleAgents now ttl).entries mac = (none, none, none)
  kept : now - registration ≤ ttl →
    (am.pruneStaleAgents now ttl).entries mac = am.entries mac

/-- A young node whose second is old is removed. -/
theorem cutoff_of_right {ops : List (Time × Op)} {mac : GoString} {registration now : Time}
    {ttl : Duration} (h : lastRegister ops mac = some registration)
    (hright : PrunedRight (run ops) now ttl mac registration) :
    ¬ (registration - registration % second < now - ttl ∧ now - ttl ≤ registration) := by
  rintro ⟨hbefore, hafter⟩
  have hany := (stale_iff h now ttl).mpr hbefore
  have hkept := hright.kept (sub_le_comm.mp hafter)
  rw [prune_of_stale hany] at hkept
  have hnone : (run ops).details mac = none := (congrArg (fun e => e.2.1) hkept).symm
  rw [hnone] at hany
  cases hany

/-- A node is pruned as it should be unless the cutoff lies in the second of its last
registration, after its beginning and not after the registration. -/
theorem pruned_right_iff {ops : List (Time × Op)} {mac : GoString} {registration : Time}
    (h : lastRegister ops mac = some registration) (now : Time) (ttl : Duration) :
    PrunedRight (run ops) now ttl mac registration ↔
      ¬ (registration - registration % second < now - ttl ∧ now - ttl ≤ registration) := by
  have hstale := stale_iff h now ttl
  have hsecond : registration - registration % second ≤ registration :=
    sub_le_self _ (Int.emod_nonneg _ (by decide))
  constructor
  · exact cutoff_of_right h
  · intro hcutoff
    refine ⟨?_, ?_⟩
    · intro hold
      apply prune_of_stale
      apply hstale.mpr
      exact lt_of_le_of_lt hsecond (lt_sub_comm.mp hold)
    · intro hyoung
      apply prune_of_not_stale
      rw [Bool.eq_false_iff, Ne, hstale]
      intro hbefore
      exact hcutoff ⟨hbefore, sub_le_comm.mp hyoung⟩

def heartbeat : HeartbeatPayload := ⟨ascii "aa", ascii "host", [], [], [], false⟩

theorem pruned_right_iff_hour : PrunedRight (run [(second / 2, .register (ascii "aa") 0 heartbeat)])
    (hour + second) minute (ascii "aa") (second / 2) := by
  apply (pruned_right_iff (by decide) _ _).mpr
  decide

/-- A node registered at 0.9 s is removed at 60.8 s, with one minute to live. -/
theorem not_pruned_right : ¬ ∀ (ops : List (Time × Op)) (mac : GoString) (registration now : Time)
    (ttl : Duration), 0 < ttl → lastRegister ops mac = some registration →
    PrunedRight (run ops) now ttl mac registration := by
  intro h
  have hlast : lastRegister [(900000000, .register (ascii "aa") 0 heartbeat)] (ascii "aa") =
      some 900000000 := by
    decide
  have hright := h _ _ _ 60800000000 minute (by decide) hlast
  exact cutoff_of_right hlast hright (by decide)

end Patchli.Fleet
