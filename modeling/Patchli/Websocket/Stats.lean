import Patchli.Foundation.Cut
import Patchli.Websocket.Identity

/-!
# The statistics of the dashboard

`GetNodes`, `GetStats` and `HandleStats`. No handler sets a status by itself, so the
statistics count connections.
-/

namespace Patchli.Websocket

open Fleet Auth Json

/-! ### What is counted -/

/-- The keys of `details`, in the order in which a loop visits them. -/
structure Visits (am : AgentManager) (macs : List GoString) : Prop where
  nodup : macs.Nodup
  mem : ∀ mac, mac ∈ macs ↔ am.details mac ≠ none

def getNodes (am : AgentManager) (macs : List GoString) : List AgentDetails :=
  macs.filterMap am.details

structure Stats where
  total : ℕ
  online : ℕ
  reboot : ℕ
  deriving DecidableEq

def isOnline (d : AgentDetails) : Bool := ascii "online" <:+: d.status.toLower

def isReboot (d : AgentDetails) : Bool := ascii "reboot" <:+: d.status.toLower

def Stats.count (stats : Stats) (d : AgentDetails) : Stats :=
  let stats := if isOnline d then { stats with online := stats.online + 1 } else stats
  if isReboot d then { stats with reboot := stats.reboot + 1 } else stats

def getStats (am : AgentManager) (macs : List GoString) : Stats :=
  (macs.filterMap am.details).foldl Stats.count ⟨macs.length, 0, 0⟩

def compliance (stats : Stats) : GoString :=
  if 0 < stats.total then Decimal.formatNat (stats.online * 100 / stats.total) ++ ascii "%"
  else ascii "0%"

def statsObject (stats : Stats) : Value := .object [
  (ascii "vitality", .number (Decimal.formatInt stats.total)),
  (ascii "immune", .string (compliance stats)),
  (ascii "recovery", .number (Decimal.formatInt stats.reboot))]

/-- The body of the answer. -/
def handleStats (stats : Stats) : GoString := Wire.writeJSON (statsObject stats)

theorem foldl_count (stats : Stats) (ds : List AgentDetails) : ds.foldl Stats.count stats =
    ⟨stats.total, stats.online + ds.countP isOnline, stats.reboot + ds.countP isReboot⟩ := by
  induction ds generalizing stats with
  | nil => rfl
  | cons d ds ih =>
    rw [List.foldl_cons, ih]
    simp only [Stats.count, List.countP_cons]
    split <;> split <;> simp [add_comm, add_left_comm]

theorem getStats_eq (am : AgentManager) (macs : List GoString) : getStats am macs =
    ⟨macs.length, (getNodes am macs).countP isOnline, (getNodes am macs).countP isReboot⟩ := by
  rw [getStats, foldl_count]
  simp [getNodes]

theorem valid_compliance (stats : Stats) : Utf8.Valid (compliance stats) := by
  apply Utf8.valid_of_ascii
  unfold compliance
  split
  · intro b hb
    rcases List.mem_append.mp hb with hb | hb
    · have hdigit := Decimal.formatNat_digits _ b hb
      simp only [Decimal.isDigit, Bool.and_eq_true, decide_eq_true_eq] at hdigit
      grind
    · revert hb
      exact (show ∀ b ∈ ascii "%", b < 0x80 by decide +kernel) b
  · decide +kernel

/-- The dashboard reads what was counted. -/
theorem parseFirst_handleStats (stats : Stats) :
    parseFirst (handleStats stats) = some (statsObject stats) := by
  have hintegral : Integral (statsObject stats) := ⟨⟨_, rfl⟩, trivial, ⟨_, rfl⟩, trivial⟩
  have hdecoded : decoded (statsObject stats) = .object [
      (ascii "vitality", .number (Decimal.formatInt stats.total)),
      (ascii "immune", .string (Utf8.toValid (compliance stats))),
      (ascii "recovery", .number (Decimal.formatInt stats.reboot))] := rfl
  rw [Utf8.toValid_of_valid (valid_compliance stats)] at hdecoded
  have hparse : parseFirst (render (statsObject stats) ++ [0x0A]) =
      some (decoded (statsObject stats)) :=
    parseFirst_render hintegral (delimited_cons (by decide))
  rwa [hdecoded] at hparse

/-! ### What a status says -/

def connected (am : AgentManager) (mac : GoString) : Bool := (am.agents mac).isSome

/-- The status of a node says whether the registry holds a connection for it. -/
def Labelled (am : AgentManager) : Prop :=
  ∀ v d, am.details v = some d →
    d.status = if connected am v then ascii "Online" else ascii "offline"

/-- A call other than `SetStatus`. -/
def SetsNoStatus : Action → Prop
  | .other (.setStatus _ _) => False
  | _ => True

variable {J : Jwt} {s u : State} {am : AgentManager}

theorem Labelled.register (ham : Labelled am) (now : Time) (mac : GoString) (conn : Conn)
    (p : HeartbeatPayload) : Labelled (am.register now mac conn p).1 := by
  intro v d hd
  by_cases hv : v = mac
  · subst hv
    simp only [AgentManager.register, Function.update_self, Option.some.injEq] at hd
    subst hd
    simp [connected, AgentManager.register]
  · have hconn : connected (am.register now mac conn p).1 v = connected am v := by
      simp [connected, AgentManager.register, hv]
    simp only [AgentManager.register, Function.update_of_ne hv] at hd
    rw [hconn]
    exact ham v d hd

theorem Labelled.unregister (ham : Labelled am) (mac : GoString) :
    Labelled (am.unregister mac) := by
  intro v d hd
  by_cases hv : v = mac
  · subst hv
    simp only [AgentManager.unregister, Function.update_self, Option.map_eq_some_iff] at hd
    obtain ⟨d', -, rfl⟩ := hd
    simp [connected, AgentManager.unregister]
  · have hconn : connected (am.unregister mac) v = connected am v := by
      simp [connected, AgentManager.unregister, hv]
    simp only [AgentManager.unregister, Function.update_of_ne hv] at hd
    rw [hconn]
    exact ham v d hd

theorem Labelled.other (ham : Labelled am) (now : Time) {call : OtherCall}
    (hcall : SetsNoStatus (.other call)) : Labelled (call.run am now) := by
  cases call with
  | unregister mac => exact ham.unregister mac
  | pruneStaleAgents ttl =>
    intro v d hd
    simp only [OtherCall.run, AgentManager.pruneStaleAgents] at hd
    split at hd
    · cases hd
    · rename_i hkept
      have hconn : connected (am.pruneStaleAgents now ttl) v = connected am v := by
        simp [connected, AgentManager.pruneStaleAgents, hkept]
      exact hconn ▸ ham v d hd
  | setStatus id status => exact hcall.elim
  | acquireJob mac jobID =>
    simp only [OtherCall.run, AgentManager.acquireJob]
    split <;> exact ham
  | releaseJob mac => exact ham

theorem labelled_step {a : Action} (hs : Labelled s.registry) (ha : SetsNoStatus a)
    (hstep : step J s a = some u) : Labelled u.registry := by
  cases step_effect hstep with
  | advance | connected => exact hs
  | other => exact hs.other s.now ha
  | handler hc hmoves =>
    rcases hmoves.registry_eq with hsame | ⟨p, -, hregister⟩ | ⟨-, hunregister⟩
    · rw [hsame]
      exact hs
    · rw [hregister]
      exact hs.register s.now _ _ p
    · rw [hunregister]
      exact hs.unregister _

theorem known_step {v : GoString} {a : Action}
    (hs : s.registry.details v ≠ none → v ∈ s.heartbeats) (hstep : step J s a = some u) :
    u.registry.details v ≠ none → v ∈ u.heartbeats := by
  intro hu
  cases step_effect hstep with
  | advance | connected => exact hs hu
  | other =>
    obtain ⟨d, hd⟩ := Option.ne_none_iff_exists'.mp hu
    obtain ⟨d', hd', -⟩ := OtherCall.details_run hd
    exact hs (Option.ne_none_iff_exists'.mpr ⟨d', hd'⟩)
  | @handler c h a u hc hmoves =>
    by_cases hv : v = h.nodeID
    · subst hv
      cases hmoves with
      | accepted => exact List.mem_append_right _ List.mem_cons_self
      | unregistered =>
        refine hs fun hnone => hu ?_
        simp [State.setHandler, AgentManager.unregister, hnone]
      | read | failed | ignored | mismatch | stored | notStored | replaced | markedOffline
      | notMarked => exact hs hu
    · cases hmoves with
      | accepted =>
        refine List.mem_append_left _ (hs ?_)
        simpa [State.register, AgentManager.register, hv] using hu
      | unregistered =>
        refine hs ?_
        simpa [State.setHandler, AgentManager.unregister, hv] using hu
      | read | failed | ignored | mismatch | stored | notStored | replaced | markedOffline
      | notMarked => exact hs hu

/-! ### Connections -/

theorem counts_of_labelled (ham : Labelled am) {mac : GoString} {d : AgentDetails}
    (hd : am.details mac = some d) : isOnline d = connected am mac ∧ isReboot d = false := by
  have hstatus := ham mac d hd
  simp only [isOnline, isReboot, hstatus]
  cases connected am mac with
  | false => decide
  | true => decide

theorem getStats_of_labelled (ham : Labelled am) {macs : List GoString} (hmacs : Visits am macs) :
    getStats am macs = ⟨macs.length, macs.countP (connected am), 0⟩ := by
  rw [getStats_eq]
  have hcount : ∀ ms : List GoString, (∀ mac ∈ ms, am.details mac ≠ none) →
      (getNodes am ms).countP isOnline = ms.countP (connected am) ∧
        (getNodes am ms).countP isReboot = 0 := by
    intro ms hms
    induction ms with
    | nil => exact ⟨rfl, rfl⟩
    | cons mac ms ih =>
      obtain ⟨d, hd⟩ := Option.ne_none_iff_exists'.mp (hms mac List.mem_cons_self)
      obtain ⟨honline, hreboot⟩ := ih fun m hm => hms m (List.mem_cons_of_mem _ hm)
      obtain ⟨hdonline, hdreboot⟩ := counts_of_labelled ham hd
      simp only [getNodes, List.filterMap_cons, hd, List.countP_cons, hdonline, hdreboot]
      exact ⟨by rw [← honline]; rfl, by simpa [getNodes] using hreboot⟩
  obtain ⟨honline, hreboot⟩ := hcount macs fun mac => (hmacs.mem mac).mp
  rw [honline, hreboot]

theorem percent_eq_hundred {online total : ℕ} (htotal : 0 < total) (hle : online ≤ total) :
    online * 100 / total = 100 ↔ online = total := by
  constructor
  · intro h
    have hmul := Nat.div_mul_le_self (online * 100) total
    rw [h] at hmul
    omega
  · rintro rfl
    exact Nat.mul_div_cancel_left 100 htotal

theorem compliance_eq_full {online total reboot : ℕ} (hle : online ≤ total) :
    compliance ⟨total, online, reboot⟩ = ascii "100%" ↔ 0 < total ∧ online = total := by
  have hfull : ascii "100%" = Decimal.formatNat 100 ++ ascii "%" := by decide +kernel
  unfold compliance
  split
  · rename_i htotal
    rw [hfull, List.append_left_inj, Decimal.formatNat_injective.eq_iff,
      percent_eq_hundred htotal hle]
    exact (and_iff_right htotal).symm
  · rename_i htotal
    exact iff_of_false (by decide) fun h => htotal h.1

/-- The statistics count the nodes that are known and those that are connected, and report
full compliance exactly when every node that is known is connected. -/
theorem stats_count_connections {now : Time} {nodes : GoString → Option NodeRow}
    {as : List Action} {macs : List GoString} (has : ∀ a ∈ as, SetsNoStatus a)
    (hrun : Machine.run (step J) (.initial now nodes) as = some s)
    (hmacs : Visits s.registry macs) :
    (∀ v, s.registry.agents v ≠ none → v ∈ macs) ∧
    getStats s.registry macs =
      ⟨macs.length, macs.countP fun v => (s.registry.agents v).isSome, 0⟩ ∧
    parseFirst (handleStats (getStats s.registry macs)) =
      some (statsObject (getStats s.registry macs)) ∧
    (compliance (getStats s.registry macs) = ascii "100%" ↔
      macs ≠ [] ∧ ∀ v ∈ macs, s.registry.agents v ≠ none) := by
  have hlabelled : Labelled s.registry := Machine.run_invariant_of_meets (step J)
    (C := fun _ a => SetsNoStatus a) (I := fun s => Labelled s.registry)
    (fun s a t hs ha ht => labelled_step hs ha ht) (fun v d hd => by cases hd)
    (Machine.meets_of_forall (step J) fun a ha _ => has a ha) hrun
  have hbound : Bound J s :=
    Machine.run_invariant (step J) (fun s a t hs h => bound_step hs h) (bound_initial now nodes) hrun
  have hstats := getStats_of_labelled hlabelled hmacs
  refine ⟨?_, hstats, parseFirst_handleStats _, ?_⟩
  · intro v hv
    obtain ⟨c, hc⟩ := Option.ne_none_iff_exists'.mp hv
    exact (hmacs.mem v).mpr (Option.isSome_iff_ne_none.mp (hbound.described v c hc))
  · rw [hstats, compliance_eq_full List.countP_le_length]
    simp only [List.length_pos_iff, List.countP_eq_length, connected, Option.isSome_iff_ne_none]

private def oneNode : List Action := [
  .handler 0 (.connect (header 0)), .handler 0 (.readMessage beat), .handler 0 .act]

theorem stats_count_connections_one : ∃ s, Machine.run (step testJwt) (.initial 0 fun _ => none)
      oneNode = some s ∧
    (compliance (getStats s.registry [ascii "aa"]) = ascii "100%" ↔
      [ascii "aa"] ≠ [] ∧ ∀ v ∈ [ascii "aa"], s.registry.agents v ≠ none) := by
  have heval : (Machine.run (step testJwt) (.initial 0 fun _ => none) oneNode).any (fun s =>
      decide (s.heartbeats = [ascii "aa"]) && (s.registry.details (ascii "aa")).isSome) = true := by
    decide +kernel
  simp only [Option.any_eq_true, Bool.and_eq_true, decide_eq_true_eq] at heval
  obtain ⟨s, hrun, hheard, hdetails⟩ := heval
  have hvisits : Visits s.registry [ascii "aa"] := by
    refine ⟨List.nodup_singleton _, fun v => ⟨?_, ?_⟩⟩
    · intro hv
      rw [List.mem_singleton.mp hv]
      exact Option.isSome_iff_ne_none.mp hdetails
    · intro hv
      have hmem : v ∈ s.heartbeats := Machine.run_invariant (step testJwt)
        (I := fun s => s.registry.details v ≠ none → v ∈ s.heartbeats)
        (fun s a t hs ht => known_step hs ht) (fun h => absurd rfl h) hrun hv
      rwa [hheard] at hmem
  have hactions : ∀ a ∈ oneNode, SetsNoStatus a := by
    simp [oneNode, SetsNoStatus]
  exact ⟨s, hrun, (stats_count_connections hactions hrun hvisits).2.2.2⟩

end Patchli.Websocket
