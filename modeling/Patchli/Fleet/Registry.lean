import Patchli.Command.Sign

/-!
# The registry of connected agents

`fleet.AgentManager`: connections, details and active jobs by node. Every method
holds the manager's mutex throughout, so each is one step. The text of a timestamp is kept
as the instant that parsing it gives.
-/

namespace Patchli

structure HeartbeatPayload where
  macAddress : GoString
  hostname : GoString
  os : GoString
  osVersion : GoString
  kernel : GoString
  rebootNeeded : Bool

structure AgentDetails where
  hostname : GoString
  macAddress : GoString
  os : GoString
  kernel : GoString
  status : GoString
  /-- What `time.Parse(time.RFC3339, _)` makes of the text; `none` is an error. -/
  lastHeartbeat : Option Time

/-- `time.Now().Format(time.RFC3339)` keeps whole seconds. -/
def formatRFC3339 (now : Time) : Option Time := some (now - now % second)

end Patchli

namespace Patchli.Fleet

abbrev Conn := ℕ

structure AgentManager where
  agents : GoString → Option Conn
  details : GoString → Option AgentDetails
  activeJobs : GoString → Option GoString

namespace AgentManager

def empty : AgentManager := ⟨fun _ => none, fun _ => none, fun _ => none⟩

/-- The second component is the connection that registration replaced and closed. -/
def register (am : AgentManager) (now : Time) (mac : GoString) (conn : Conn)
    (p : HeartbeatPayload) : AgentManager × Option Conn :=
  ({ am with
      agents := Function.update am.agents mac (some conn)
      details := Function.update am.details mac (some {
        hostname := p.hostname
        macAddress := p.macAddress
        os := p.os
        kernel := p.kernel
        status := ascii "Online"
        lastHeartbeat := formatRFC3339 now }) },
    (am.agents mac).filter fun oldConn => oldConn != conn)

def unregister (am : AgentManager) (mac : GoString) : AgentManager where
  agents := Function.update am.agents mac none
  details := Function.update am.details mac
    ((am.details mac).map fun a => { a with status := ascii "offline" })
  activeJobs := Function.update am.activeJobs mac none

/-- Unregister `mac` only if `conn` is still its connection. -/
def unregisterConn (am : AgentManager) (mac : GoString) (conn : Conn) : AgentManager × Bool :=
  if am.agents mac = some conn then (am.unregister mac, true) else (am, false)

/-- Details whose last heartbeat does not parse or is older than the cutoff. -/
def stale (now : Time) (ttl : Duration) (detail : AgentDetails) : Bool :=
  match detail.lastHeartbeat with
  | none => true
  | some last => decide (last < now - ttl)

def pruneStaleAgents (am : AgentManager) (now : Time) (ttl : Duration) : AgentManager :=
  let pruned (mac : GoString) : Bool := (am.details mac).any (stale now ttl)
  { agents := fun mac => if pruned mac then none else am.agents mac
    details := fun mac => if pruned mac then none else am.details mac
    activeJobs := fun mac => if pruned mac then none else am.activeJobs mac }

def setStatus (am : AgentManager) (id status : GoString) : AgentManager :=
  let details := (am.details id).map fun a => { a with status := status }
  { am with details := Function.update am.details id details }

/-- `none` when the node already has an active job. -/
def acquireJob (am : AgentManager) (mac jobID : GoString) : Option AgentManager :=
  match am.activeJobs mac with
  | some _ => none
  | none => some { am with activeJobs := Function.update am.activeJobs mac (some jobID) }

def releaseJob (am : AgentManager) (mac : GoString) : AgentManager :=
  { am with activeJobs := Function.update am.activeJobs mac none }

inductive SendError
  | sign
  | agentOffline
  | write
  deriving DecidableEq

/-- What signing and writing do in one call of `SendCommand`. -/
structure SendIO where
  sign : CommandPayload → GoString → Option CommandPayload
  written : Bool

/-- The connection written to and the payload written. -/
def sendCommand (am : AgentManager) (io : SendIO) (mac : GoString) (cmd : CommandPayload) :
    Except SendError (Conn × CommandPayload) :=
  match io.sign cmd mac with
  | none => .error .sign
  | some cmd =>
    match am.agents mac with
    | none => .error .agentOffline
    | some conn => if io.written then .ok (conn, cmd) else .error .write

end AgentManager

/-- The registry calls of the connection handlers and of pruning. -/
inductive Call
  | register (mac : GoString) (conn : Conn) (p : HeartbeatPayload)
  | unregister (mac : GoString)
  | unregisterConn (mac : GoString) (conn : Conn)
  | pruneStaleAgents (ttl : Duration)
  | setStatus (id status : GoString)

def AgentManager.call (am : AgentManager) (now : Time) : Call → AgentManager
  | .register mac conn p => (am.register now mac conn p).1
  | .unregister mac => am.unregister mac
  | .unregisterConn mac conn => (am.unregisterConn mac conn).1
  | .pruneStaleAgents ttl => am.pruneStaleAgents now ttl
  | .setStatus id status => am.setStatus id status

/-- The call deletes the active job of `mac`. -/
def Call.Evicts (c : Call) (am : AgentManager) (now : Time) (mac : GoString) : Prop :=
  match c with
  | .unregister m => m = mac
  | .unregisterConn m conn => m = mac ∧ am.agents m = some conn
  | .pruneStaleAgents ttl => (am.details mac).any (AgentManager.stale now ttl)
  | .register _ _ _ | .setStatus _ _ => False

instance (am : AgentManager) (now : Time) (mac : GoString) :
    ∀ c : Call, Decidable (c.Evicts am now mac)
  | .unregister m => inferInstanceAs (Decidable (m = mac))
  | .unregisterConn m conn => inferInstanceAs (Decidable (m = mac ∧ am.agents m = some conn))
  | .pruneStaleAgents ttl =>
    inferInstanceAs (Decidable ((am.details mac).any (AgentManager.stale now ttl) = true))
  | .register _ _ _ | .setStatus _ _ => isFalse id

theorem activeJobs_call (am : AgentManager) (now : Time) (c : Call) (mac : GoString) :
    (am.call now c).activeJobs mac = am.activeJobs mac ∨
      c.Evicts am now mac ∧ (am.call now c).activeJobs mac = none := by
  cases c with
  | register | setStatus => exact Or.inl rfl
  | unregister m =>
    by_cases h : mac = m
    · subst h
      exact Or.inr ⟨rfl, by simp [AgentManager.call, AgentManager.unregister]⟩
    · exact Or.inl (by simp [AgentManager.call, AgentManager.unregister, h])
  | unregisterConn m conn =>
    by_cases hconn : am.agents m = some conn
    · by_cases h : mac = m
      · subst h
        exact Or.inr ⟨⟨rfl, hconn⟩,
          by simp [AgentManager.call, AgentManager.unregisterConn, AgentManager.unregister, hconn]⟩
      · exact Or.inl (by simp [AgentManager.call, AgentManager.unregisterConn,
          AgentManager.unregister, hconn, h])
    · exact Or.inl (by simp [AgentManager.call, AgentManager.unregisterConn, hconn])
  | pruneStaleAgents ttl =>
    by_cases h : (am.details mac).any (AgentManager.stale now ttl) = true
    · exact Or.inr ⟨h, by simp [AgentManager.call, AgentManager.pruneStaleAgents, h]⟩
    · exact Or.inl (by simp [AgentManager.call, AgentManager.pruneStaleAgents, h])

end Patchli.Fleet
