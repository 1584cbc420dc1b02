import Patchli.Auth.Token
import Patchli.Command.Wire
import Patchli.Fleet.Registry
import Patchli.Foundation.Machine

/-!
# Connection handlers

`HandleWebSocket`, one handler for each connection. A message that was read and the
calls of the registry and of the database that it leads to are separate steps, so
handlers interleave between them. A message that had arrived before its connection
was closed can still be read.
-/

namespace Patchli.Websocket

open Fleet Auth Json GoString

/-- A row of `nodes`, with the columns of a heartbeat. -/
structure NodeRow where
  hostname : GoString
  osName : Option GoString
  osVersion : Option GoString
  kernelVersion : Option GoString
  status : Option GoString
  lastHeartbeat : Option Time
  deriving DecidableEq

/-! ### Messages -/

def maxMessageBytes : ℕ := 2 ^ 16

def decodeBool (old : Bool) : Value → Option Bool
  | .bool b => some b
  | .null => some old
  | _ => none

def setHeartbeat (p : HeartbeatPayload) (key : GoString) (v : Value) : Option HeartbeatPayload :=
  if key.equalFold (ascii "mac_address") then
    (Wire.decodeString p.macAddress v).map fun s => { p with macAddress := s }
  else if key.equalFold (ascii "hostname") then
    (Wire.decodeString p.hostname v).map fun s => { p with hostname := s }
  else if key.equalFold (ascii "os") then
    (Wire.decodeString p.os v).map fun s => { p with os := s }
  else if key.equalFold (ascii "os_version") then
    (Wire.decodeString p.osVersion v).map fun s => { p with osVersion := s }
  else if key.equalFold (ascii "kernel") then
    (Wire.decodeString p.kernel v).map fun s => { p with kernel := s }
  else if key.equalFold (ascii "reboot_needed") then
    (decodeBool p.rebootNeeded v).map fun b => { p with rebootNeeded := b }
  else some p

def decodeHeartbeat (v : Value) : Option HeartbeatPayload :=
  Wire.decodeStruct setHeartbeat ⟨[], [], [], [], [], false⟩ v

/-- The heartbeat in a message; `none` for any other message and for one that does
not decode. -/
def heartbeat (message : GoString) : Option HeartbeatPayload :=
  ((parse message).bind (Wire.decodeStruct Wire.setMessage ⟨[], none⟩)).bind fun wsMsg =>
    if wsMsg.type = ascii "heartbeat" then wsMsg.payload.bind decodeHeartbeat else none

/-! ### Handlers -/

/-- Where a handler is in its loop. -/
inductive Phase
  | reading
  /-- A message was read. -/
  | acting (message : GoString)
  /-- Between `Register` and `UpdateNodeStatus`. -/
  | storing (p : HeartbeatPayload)
  /-- In `markOffline`, before `UnregisterConn`. -/
  | leaving
  /-- Between `UnregisterConn` and `MarkNodeOffline`. -/
  | unregistered
  | returned

/-- A handler past its handshake, with the request's header and the time at which the
header was checked. -/
structure Handler where
  authHeader : GoString
  since : Time
  nodeID : GoString
  registered : Bool
  phase : Phase

/-- `heartbeats` records whose heartbeats were registered. -/
structure State where
  now : Time
  registry : AgentManager
  nodes : GoString → Option NodeRow
  handlers : Conn → Option Handler
  closed : Conn → Bool
  heartbeats : List GoString

def State.initial (now : Time) (nodes : GoString → Option NodeRow) : State :=
  ⟨now, .empty, nodes, fun _ => none, fun _ => false, []⟩

def State.status (s : State) (mac : GoString) : Option GoString := (s.nodes mac).bind NodeRow.status

def State.online (s : State) (mac : GoString) : Bool := s.status mac = some (ascii "online")

inductive HandlerAction
  /-- The handshake of a new connection. -/
  | connect (authHeader : GoString)
  | readMessage (message : GoString)
  | readError
  /-- Decode the message and act on it, up to the registry's call. -/
  | act
  | updateNodeStatus (ok : Bool)
  | unregisterConn
  | markNodeOffline (ok : Bool)

/-- Calls of the registry that no handler makes. -/
inductive OtherCall
  | unregister (mac : GoString)
  | pruneStaleAgents (ttl : Duration)
  | setStatus (id status : GoString)
  | acquireJob (mac jobID : GoString)
  | releaseJob (mac : GoString)

def OtherCall.run (am : AgentManager) (now : Time) : OtherCall → AgentManager
  | .unregister mac => am.unregister mac
  | .pruneStaleAgents ttl => am.pruneStaleAgents now ttl
  | .setStatus id status => am.setStatus id status
  | .acquireJob mac jobID => (am.acquireJob mac jobID).getD am
  | .releaseJob mac => am.releaseJob mac

inductive Action
  | advance (t : Time)
  | other (call : OtherCall)
  | handler (c : Conn) (a : HandlerAction)

namespace State

def setHandler (s : State) (c : Conn) (h : Handler) : State :=
  { s with handlers := Function.update s.handlers c (some h) }

def close (s : State) (c : Conn) : State :=
  { s with closed := Function.update s.closed c true }

/-- The handler returns and its deferred call closes the connection. -/
def ret (s : State) (c : Conn) (h : Handler) : State :=
  (s.setHandler c { h with phase := .returned }).close c

/-- `db.UpdateNodeStatus` with the status `online`. -/
def updateNodeStatus (s : State) (mac : GoString) (p : HeartbeatPayload) : State :=
  { s with nodes := Function.update s.nodes mac (some {
      hostname := p.hostname
      osName := some p.os
      osVersion := some p.osVersion
      kernelVersion := some p.kernel
      status := some (ascii "online")
      lastHeartbeat := some s.now }) }

/-- `db.MarkNodeOffline` -/
def markNodeOffline (s : State) (mac : GoString) : State :=
  let row := (s.nodes mac).map fun row => { row with status := some (ascii "offline") }
  { s with nodes := Function.update s.nodes mac row }

/-- `Register`, which closes the connection that it replaces. -/
def register (s : State) (c : Conn) (h : Handler) (p : HeartbeatPayload) : State :=
  let (registry, oldConn) := s.registry.register s.now h.nodeID c p
  { s with
    registry := registry
    closed := fun k => oldConn = some k || s.closed k
    handlers := Function.update s.handlers c (some { h with
      registered := true
      phase := .storing p })
    heartbeats := s.heartbeats ++ [h.nodeID] }

/-- The heartbeat names another node. -/
def Mismatch (h : Handler) (p : HeartbeatPayload) : Prop :=
  p.macAddress ≠ [] ∧ p.macAddress ≠ h.nodeID

instance (h : Handler) (p : HeartbeatPayload) : Decidable (Mismatch h p) :=
  inferInstanceAs (Decidable (_ ∧ _))

def act (s : State) (c : Conn) (h : Handler) (message : GoString) : State :=
  match heartbeat message with
  | none => s.setHandler c { h with phase := .reading }
  | some p =>
    if Mismatch h p then s.setHandler c { h with phase := .leaving }
    else s.register c h { p with macAddress := h.nodeID }

/-- `markOffline` up to its database call. -/
def markOffline (s : State) (c : Conn) (h : Handler) : State :=
  if h.registered then
    let (registry, unregistered) := s.registry.unregisterConn h.nodeID c
    if unregistered then
      { s with registry := registry }.setHandler c { h with phase := .unregistered }
    else s.ret c h
  else s.ret c h

end State

/-- One step of a handler past its handshake. -/
def Handler.step (s : State) (c : Conn) (h : Handler) (a : HandlerAction) : Option State :=
  match a, h.phase with
  | .readMessage message, .reading =>
    if message.length ≤ maxMessageBytes then
      some (s.setHandler c { h with phase := .acting message })
    else none
  | .readError, .reading => some (s.setHandler c { h with phase := .leaving })
  | .act, .acting message => some (s.act c h message)
  | .updateNodeStatus ok, .storing p =>
    let s := if ok then s.updateNodeStatus h.nodeID p else s
    some (s.setHandler c { h with phase := .reading })
  | .unregisterConn, .leaving => some (s.markOffline c h)
  | .markNodeOffline ok, .unregistered =>
    let s := if ok then s.markNodeOffline h.nodeID else s
    some (s.ret c h)
  | _, _ => none

def step (J : Jwt) (s : State) : Action → Option State
  | .advance t => if s.now ≤ t then some { s with now := t } else none
  | .other call => some { s with registry := call.run s.registry s.now }
  | .handler c a =>
    match s.handlers c, a with
    | none, .connect authHeader =>
      match authenticate J s.now authHeader with
      | none => none
      | some nodeID => some (s.setHandler c ⟨authHeader, s.now, nodeID, false, .reading⟩)
    | some h, a => h.step s c a
    | none, _ => none

/-! ### What a step can do -/

/-- The effects of a handler's step, with what each of them requires. -/
inductive Moves (s : State) (c : Conn) (h : Handler) : HandlerAction → State → Prop
  | read {message : GoString} : h.phase = .reading →
      Moves s c h (.readMessage message) (s.setHandler c { h with phase := .acting message })
  | failed : h.phase = .reading →
      Moves s c h .readError (s.setHandler c { h with phase := .leaving })
  | ignored {message : GoString} : h.phase = .acting message → heartbeat message = none →
      Moves s c h .act (s.setHandler c { h with phase := .reading })
  | mismatch {message : GoString} {p : HeartbeatPayload} : h.phase = .acting message →
      heartbeat message = some p → State.Mismatch h p →
      Moves s c h .act (s.setHandler c { h with phase := .leaving })
  | accepted {message : GoString} {p : HeartbeatPayload} : h.phase = .acting message →
      heartbeat message = some p → ¬ State.Mismatch h p →
      Moves s c h .act (s.register c h { p with macAddress := h.nodeID })
  | stored {p : HeartbeatPayload} : h.phase = .storing p →
      Moves s c h (.updateNodeStatus true)
        ((s.updateNodeStatus h.nodeID p).setHandler c { h with phase := .reading })
  | notStored {p : HeartbeatPayload} : h.phase = .storing p →
      Moves s c h (.updateNodeStatus false) (s.setHandler c { h with phase := .reading })
  | unregistered : h.phase = .leaving → s.registry.agents h.nodeID = some c →
      Moves s c h .unregisterConn ({ s with registry := s.registry.unregister h.nodeID }.setHandler
        c { h with phase := .unregistered })
  | replaced : h.phase = .leaving →
      h.registered = false ∨ s.registry.agents h.nodeID ≠ some c →
      Moves s c h .unregisterConn (s.ret c h)
  | markedOffline : h.phase = .unregistered →
      Moves s c h (.markNodeOffline true) ((s.markNodeOffline h.nodeID).ret c h)
  | notMarked : h.phase = .unregistered → Moves s c h (.markNodeOffline false) (s.ret c h)

theorem act_moves {s : State} {c : Conn} {h : Handler} {message : GoString}
    (hphase : h.phase = .acting message) : Moves s c h .act (s.act c h message) := by
  unfold State.act
  split
  · exact .ignored hphase ‹_›
  · rename_i p hp
    split_ifs with hmismatch
    · exact .mismatch hphase hp hmismatch
    · exact .accepted hphase hp hmismatch

theorem markOffline_moves {s : State} {c : Conn} {h : Handler} (hphase : h.phase = .leaving) :
    Moves s c h .unregisterConn (s.markOffline c h) := by
  unfold State.markOffline AgentManager.unregisterConn
  by_cases hregistered : h.registered = true
  · by_cases hconn : s.registry.agents h.nodeID = some c
    · simpa only [if_pos hregistered, if_pos hconn] using .unregistered hphase hconn
    · simpa only [if_pos hregistered, if_neg hconn] using .replaced hphase (Or.inr hconn)
  · rw [if_neg hregistered]
    exact .replaced hphase (Or.inl (by simpa using hregistered))

theorem handlerStep_moves {s u : State} {c : Conn} {h : Handler} {a : HandlerAction}
    (hstep : h.step s c a = some u) : Moves s c h a u := by
  unfold Handler.step at hstep
  split at hstep
  · rename_i message hphase
    split_ifs at hstep
    cases hstep
    exact .read hphase
  · rename_i hphase
    cases hstep
    exact .failed hphase
  · rename_i message hphase
    cases hstep
    exact act_moves hphase
  · rename_i ok p hphase
    cases hstep
    cases ok with
    | true => exact .stored hphase
    | false => exact .notStored hphase
  · rename_i hphase
    cases hstep
    exact markOffline_moves hphase
  · rename_i ok hphase
    cases hstep
    cases ok with
    | true => exact .markedOffline hphase
    | false => exact .notMarked hphase
  · cases hstep

inductive Effect (J : Jwt) (s : State) : Action → State → Prop
  | advance {t : Time} : s.now ≤ t → Effect J s (.advance t) { s with now := t }
  | other {call : OtherCall} :
      Effect J s (.other call) { s with registry := call.run s.registry s.now }
  | connected {c : Conn} {authHeader nodeID : GoString} : s.handlers c = none →
      authenticate J s.now authHeader = some nodeID →
      Effect J s (.handler c (.connect authHeader))
        (s.setHandler c ⟨authHeader, s.now, nodeID, false, .reading⟩)
  | handler {c : Conn} {h : Handler} {a : HandlerAction} {u : State} : s.handlers c = some h →
      Moves s c h a u → Effect J s (.handler c a) u

theorem step_effect {J : Jwt} {s u : State} {a : Action} (hstep : step J s a = some u) :
    Effect J s a u := by
  cases a with
  | advance t =>
    simp only [step, Option.ite_none_right_eq_some, Option.some.injEq] at hstep
    obtain ⟨hle, rfl⟩ := hstep
    exact .advance hle
  | other call =>
    cases hstep
    exact .other
  | handler c a =>
    simp only [step] at hstep
    split at hstep
    · rename_i authHeader hc
      split at hstep
      · cases hstep
      · cases hstep
        exact .connected hc ‹_›
    · exact .handler ‹_› (handlerStep_moves hstep)
    · cases hstep

end Patchli.Websocket
