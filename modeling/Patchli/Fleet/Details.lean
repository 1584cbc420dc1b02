import Patchli.Fleet.Registry
import Patchli.Foundation.Calendar

/-!
# The texts of the registry

`fleet.AgentManager` as its maps hold it. `Register` writes the time of a heartbeat as a
text in the zone of the server, and `PruneStaleAgents` parses it again. The registry that
keeps instants gives the same results.
-/

namespace Patchli.Fleet

/-- `models.AgentDetails`, with the text of its timestamp. -/
structure DetailsText where
  hostname : GoString
  macAddress : GoString
  os : GoString
  kernel : GoString
  status : GoString
  lastHeartbeat : GoString

def DetailsText.parsed (d : DetailsText) : AgentDetails where
  hostname := d.hostname
  macAddress := d.macAddress
  os := d.os
  kernel := d.kernel
  status := d.status
  lastHeartbeat := Rfc3339.parse d.lastHeartbeat

structure TextManager where
  agents : GoString → Option Conn
  details : GoString → Option DetailsText
  activeJobs : GoString → Option GoString

/-- A clock reading, and the offset of the server's zone at that time. -/
structure Reading where
  now : Time
  offset : ℤ

namespace TextManager

def empty : TextManager := ⟨fun _ => none, fun _ => none, fun _ => none⟩

def register (am : TextManager) (r : Reading) (mac : GoString) (conn : Conn)
    (p : HeartbeatPayload) : TextManager × Option Conn :=
  ({ am with
      agents := Function.update am.agents mac (some conn)
      details := Function.update am.details mac (some {
        hostname := p.hostname
        macAddress := p.macAddress
        os := p.os
        kernel := p.kernel
        status := ascii "Online"
        lastHeartbeat := Rfc3339.format r.offset r.now }) },
    (am.agents mac).filter fun oldConn => oldConn != conn)

def unregister (am : TextManager) (mac : GoString) : TextManager where
  agents := Function.update am.agents mac none
  details := Function.update am.details mac
    ((am.details mac).map fun a => { a with status := ascii "offline" })
  activeJobs := Function.update am.activeJobs mac none

def unregisterConn (am : TextManager) (mac : GoString) (conn : Conn) : TextManager × Bool :=
  if am.agents mac = some conn then (am.unregister mac, true) else (am, false)

def stale (now : Time) (ttl : Duration) (detail : DetailsText) : Bool :=
  match Rfc3339.parse detail.lastHeartbeat with
  | none => true
  | some last => decide (last < now - ttl)

def pruneStaleAgents (am : TextManager) (now : Time) (ttl : Duration) : TextManager :=
  let pruned (mac : GoString) : Bool := (am.details mac).any (stale now ttl)
  { agents := fun mac => if pruned mac then none else am.agents mac
    details := fun mac => if pruned mac then none else am.details mac
    activeJobs := fun mac => if pruned mac then none else am.activeJobs mac }

def setStatus (am : TextManager) (id status : GoString) : TextManager :=
  let details := (am.details id).map fun a => { a with status := status }
  { am with details := Function.update am.details id details }

def acquireJob (am : TextManager) (mac jobID : GoString) : TextManager × Bool :=
  match am.activeJobs mac with
  | some _ => (am, false)
  | none => ({ am with activeJobs := Function.update am.activeJobs mac (some jobID) }, true)

def releaseJob (am : TextManager) (mac : GoString) : TextManager :=
  { am with activeJobs := Function.update am.activeJobs mac none }

end TextManager

/-- The calls that change the registry. -/
inductive Method
  | register (mac : GoString) (conn : Conn) (p : HeartbeatPayload)
  | unregister (mac : GoString)
  | unregisterConn (mac : GoString) (conn : Conn)
  | pruneStaleAgents (ttl : Duration)
  | setStatus (id status : GoString)
  | acquireJob (mac jobID : GoString)
  | releaseJob (mac : GoString)
  | reset

/-- What a call tells its caller, or does to a connection. -/
inductive Outcome
  | none
  | closed (oldConn : Option Conn)
  | reported (ok : Bool)
  deriving DecidableEq

def TextManager.method (am : TextManager) (r : Reading) : Method → TextManager × Outcome
  | .register mac conn p => ((am.register r mac conn p).1, .closed (am.register r mac conn p).2)
  | .unregister mac => (am.unregister mac, .none)
  | .unregisterConn mac conn =>
    ((am.unregisterConn mac conn).1, .reported (am.unregisterConn mac conn).2)
  | .pruneStaleAgents ttl => (am.pruneStaleAgents r.now ttl, .none)
  | .setStatus id status => (am.setStatus id status, .none)
  | .acquireJob mac jobID => ((am.acquireJob mac jobID).1, .reported (am.acquireJob mac jobID).2)
  | .releaseJob mac => (am.releaseJob mac, .none)
  | .reset => (.empty, .none)

def AgentManager.method (am : AgentManager) (now : Time) : Method → AgentManager × Outcome
  | .register mac conn p =>
    ((am.register now mac conn p).1, .closed (am.register now mac conn p).2)
  | .unregister mac => (am.unregister mac, .none)
  | .unregisterConn mac conn =>
    ((am.unregisterConn mac conn).1, .reported (am.unregisterConn mac conn).2)
  | .pruneStaleAgents ttl => (am.pruneStaleAgents now ttl, .none)
  | .setStatus id status => (am.setStatus id status, .none)
  | .acquireJob mac jobID =>
    ((am.acquireJob mac jobID).getD am, .reported (am.acquireJob mac jobID).isSome)
  | .releaseJob mac => (am.releaseJob mac, .none)
  | .reset => (.empty, .none)

/-- The registry after some calls, and their outcomes. -/
def TextManager.run (am : TextManager) : List (Reading × Method) → TextManager × List Outcome
  | [] => (am, [])
  | (r, m) :: calls =>
    let (am, outcome) := am.method r m
    let (am, outcomes) := am.run calls
    (am, outcome :: outcomes)

def AgentManager.runMethods (am : AgentManager) :
    List (Reading × Method) → AgentManager × List Outcome
  | [] => (am, [])
  | (r, m) :: calls =>
    let (am, outcome) := am.method r.now m
    let (am, outcomes) := am.runMethods calls
    (am, outcome :: outcomes)

/-! ### Parsing the texts -/

/-- The registry with instants in place of the texts. -/
def TextManager.parsed (am : TextManager) : AgentManager where
  agents := am.agents
  details mac := (am.details mac).map DetailsText.parsed
  activeJobs := am.activeJobs

/-- A reading whose text has four digits for the year and whole minutes for the zone. -/
def Reading.Textual (r : Reading) : Prop :=
  Rfc3339.WholeMinutes r.offset ∧ Rfc3339.FourDigits r.offset r.now

variable {am : TextManager}

theorem parsed_update (f : GoString → Option DetailsText) (mac : GoString)
    (d : Option DetailsText) :
    (fun m => (Function.update f mac d m).map DetailsText.parsed) =
      Function.update (fun m => (f m).map DetailsText.parsed) mac (d.map DetailsText.parsed) := by
  funext m
  by_cases hm : m = mac
  · subst hm
    simp
  · simp [hm]

theorem register_parsed {r : Reading} (hr : r.Textual) (mac : GoString) (conn : Conn)
    (p : HeartbeatPayload) :
    (am.register r mac conn p).1.parsed = (am.parsed.register r.now mac conn p).1 := by
  simp only [TextManager.register, TextManager.parsed, AgentManager.register, parsed_update,
    Option.map_some, DetailsText.parsed, Rfc3339.parse_format hr.1 hr.2, formatRFC3339]

theorem unregister_parsed (mac : GoString) :
    (am.unregister mac).parsed = am.parsed.unregister mac := by
  simp only [TextManager.unregister, TextManager.parsed, AgentManager.unregister, parsed_update,
    Option.map_map]
  rfl

theorem pruneStaleAgents_parsed (now : Time) (ttl : Duration) :
    (am.pruneStaleAgents now ttl).parsed = am.parsed.pruneStaleAgents now ttl := by
  have hany (mac : GoString) : (am.details mac).any (TextManager.stale now ttl) =
      ((am.details mac).map DetailsText.parsed).any (AgentManager.stale now ttl) := by
    cases am.details mac <;> rfl
  simp only [TextManager.pruneStaleAgents, TextManager.parsed, AgentManager.pruneStaleAgents, hany]
  congr 1
  funext mac
  rw [apply_ite (Option.map DetailsText.parsed)]
  rfl

theorem method_parsed (am : TextManager) {r : Reading} (hr : r.Textual) (m : Method) :
    (am.method r m).1.parsed = (am.parsed.method r.now m).1 ∧
      (am.method r m).2 = (am.parsed.method r.now m).2 := by
  cases m with
  | register mac conn p => exact ⟨register_parsed hr mac conn p, rfl⟩
  | unregister mac => exact ⟨unregister_parsed mac, rfl⟩
  | unregisterConn mac conn =>
    by_cases hconn : am.agents mac = some conn
    · have hparsed : am.parsed.agents mac = some conn := hconn
      simp [TextManager.method, AgentManager.method, TextManager.unregisterConn,
        AgentManager.unregisterConn, hconn, hparsed, unregister_parsed]
    · have hparsed : am.parsed.agents mac ≠ some conn := hconn
      simp [TextManager.method, AgentManager.method, TextManager.unregisterConn,
        AgentManager.unregisterConn, hconn, hparsed]
  | pruneStaleAgents ttl => exact ⟨pruneStaleAgents_parsed r.now ttl, rfl⟩
  | setStatus id status =>
    refine ⟨?_, rfl⟩
    simp only [TextManager.method, TextManager.setStatus, TextManager.parsed, AgentManager.method,
      AgentManager.setStatus, parsed_update, Option.map_map]
    rfl
  | acquireJob mac jobID =>
    have hparsed : am.parsed.activeJobs mac = am.activeJobs mac := rfl
    simp only [TextManager.method, AgentManager.method, TextManager.acquireJob,
      AgentManager.acquireJob, hparsed]
    cases am.activeJobs mac <;> exact ⟨rfl, rfl⟩
  | releaseJob mac => exact ⟨rfl, rfl⟩
  | reset => exact ⟨rfl, rfl⟩

/-- Whatever is called, the registry of texts keeps the instants of the heartbeats in whole
seconds, and its callers see the same. -/
theorem texts_refine_instants {calls : List (Reading × Method)}
    (hcalls : ∀ c ∈ calls, c.1.Textual) :
    (TextManager.empty.run calls).1.parsed = (AgentManager.empty.runMethods calls).1 ∧
      (TextManager.empty.run calls).2 = (AgentManager.empty.runMethods calls).2 := by
  have hrun (am : TextManager) : (am.run calls).1.parsed = (am.parsed.runMethods calls).1 ∧
      (am.run calls).2 = (am.parsed.runMethods calls).2 := by
    induction calls generalizing am with
    | nil => exact ⟨rfl, rfl⟩
    | cons c calls ih =>
      obtain ⟨r, m⟩ := c
      obtain ⟨hparsed, houtcome⟩ := method_parsed am (hcalls _ List.mem_cons_self) m
      obtain ⟨hrest, houtcomes⟩ :=
        ih (fun c hc => hcalls c (List.mem_cons_of_mem _ hc)) (am.method r m).1
      simp only [TextManager.run, AgentManager.runMethods]
      rw [← hparsed, ← houtcome]
      exact ⟨hrest, by rw [houtcomes]⟩
  exact hrun .empty

/-- Node `aa` registers, and its details are pruned a minute later, in another zone. -/
private def pruning : List (Reading × Method) := [
  (⟨0, 3600⟩, .register (ascii "aa") 0 ⟨ascii "aa", [], [], [], [], false⟩),
  (⟨minute, -7200⟩, .pruneStaleAgents (30 * second))]

theorem texts_refine_instants_pruned : (TextManager.empty.run pruning).1.parsed =
    (AgentManager.empty.runMethods pruning).1 ∧
    (TextManager.empty.run pruning).2 = (AgentManager.empty.runMethods pruning).2 := by
  apply texts_refine_instants
  intro c hc
  simp only [pruning, List.mem_cons, List.not_mem_nil, or_false] at hc
  rcases hc with rfl | rfl
  · exact ⟨⟨by decide, by decide⟩, ⟨by decide, by decide⟩⟩
  · exact ⟨⟨by decide, by decide⟩, ⟨by decide, by decide⟩⟩

end Patchli.Fleet
