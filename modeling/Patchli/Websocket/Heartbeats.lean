import Patchli.Websocket.Handler

/-!
# From an agent's heartbeat to the server's tables

`runHeartbeat` of the agent's `main.go` writes a message, and the handler of the connection
reads it. The strings of a heartbeat can be any bytes; what encodes no character arrives as
U+FFFD.
-/

namespace Patchli.Websocket

open Fleet Auth Json Utf8

/-! ### The agent -/

/-- What an agent knows of itself. -/
structure Agent where
  nodeID : GoString
  hostname : GoString
  goos : GoString
  rebootNeeded : Bool

/-- `json.Marshal` of the payload. -/
def Agent.payload (a : Agent) : Value := .object [
  (ascii "mac_address", .string a.nodeID), (ascii "hostname", .string a.hostname),
  (ascii "os", .string a.goos), (ascii "os_version", .string (ascii "unknown")),
  (ascii "kernel", .string (ascii "unknown")), (ascii "reboot_needed", .bool a.rebootNeeded)]

/-- The message of one tick of `runHeartbeat`. -/
def Agent.message (a : Agent) : GoString := Wire.writeJSON (.object [
  (ascii "type", .string (ascii "heartbeat")), (ascii "payload", a.payload)])

/-- The payload that the server decodes. -/
def Agent.delivered (a : Agent) : HeartbeatPayload where
  macAddress := toValid a.nodeID
  hostname := toValid a.hostname
  os := toValid a.goos
  osVersion := ascii "unknown"
  kernel := ascii "unknown"
  rebootNeeded := a.rebootNeeded

theorem heartbeat_message (a : Agent) : heartbeat a.message = some a.delivered := by
  have hintegral : Integral (.object [
      (ascii "type", .string (ascii "heartbeat")), (ascii "payload", a.payload)]) :=
    ⟨trivial, ⟨trivial, trivial, trivial, trivial, trivial, trivial, trivial⟩, trivial⟩
  have hread : (parse a.message).bind (Wire.decodeStruct Wire.setMessage ⟨[], none⟩) =
      some ⟨ascii "heartbeat", some (decoded a.payload)⟩ := by
    rw [Agent.message, Wire.writeJSON, parse_render_newline hintegral]
    rfl
  have hpayload : decodeHeartbeat (decoded a.payload) = some a.delivered := rfl
  rw [heartbeat, hread, Option.bind_some, if_pos rfl, Option.bind_some, hpayload]

/-- Names that are not longer than those of hosts fit into a message many times over. -/
theorem message_length (a : Agent)
    (h : a.nodeID.length + a.hostname.length + a.goos.length ≤ 8192) :
    a.message.length ≤ maxMessageBytes := by
  have hnode := quote_length a.nodeID
  have hhost := quote_length a.hostname
  have hos := quote_length a.goos
  have hnames : ∀ name ∈ [ascii "type", ascii "heartbeat", ascii "payload", ascii "mac_address",
      ascii "hostname", ascii "os", ascii "os_version", ascii "unknown", ascii "kernel",
      ascii "reboot_needed"], (quote name).length ≤ 80 := by
    decide +kernel
  simp only [List.forall_mem_cons] at hnames
  have hbool : (render (.bool a.rebootNeeded)).length ≤ 5 := by
    cases a.rebootNeeded <;> decide
  simp only [Agent.message, Wire.writeJSON, Agent.payload, render, renderMembers,
    List.length_append, List.length_cons, List.length_nil, maxMessageBytes] at hbool ⊢
  omega

/-! ### The server -/

variable {J : Jwt} {s : State} {c : Conn} {h : Handler} {a : Agent}

/-- The handler reads a heartbeat and the database takes it. -/
def ticks (c : Conn) (a : Agent) : List Action :=
  [.handler c (.readMessage a.message), .handler c .act, .handler c (.updateNodeStatus true)]

/-- The details that the registry keeps of an agent. -/
def Agent.details (a : Agent) (now : Time) (v : GoString) : AgentDetails where
  hostname := toValid a.hostname
  macAddress := v
  os := toValid a.goos
  kernel := ascii "unknown"
  status := ascii "Online"
  lastHeartbeat := formatRFC3339 now

def Agent.row (a : Agent) (now : Time) : NodeRow where
  hostname := toValid a.hostname
  osName := some (toValid a.goos)
  osVersion := some (ascii "unknown")
  kernelVersion := some (ascii "unknown")
  status := some (ascii "online")
  lastHeartbeat := some now

/-- The node is connected with the agent's details, and nothing is changed for the others. -/
structure Arrived (s t : State) (c : Conn) (h : Handler) (a : Agent) : Prop where
  conn : t.registry.agents h.nodeID = some c
  details : t.registry.details h.nodeID = some (a.details s.now h.nodeID)
  row : t.nodes h.nodeID = some (a.row s.now)
  handler : t.handlers c = some { h with registered := true, phase := .reading }
  others : ∀ v ≠ h.nodeID, t.registry.agents v = s.registry.agents v ∧
    t.registry.details v = s.registry.details v ∧ t.nodes v = s.nodes v
  handlers : ∀ k ≠ c, t.handlers k = s.handlers k
  jobs : t.registry.activeJobs = s.registry.activeJobs
  /-- An older connection of the node is closed. -/
  closed : ∀ k, t.closed k = true ↔
    s.closed k = true ∨ k ≠ c ∧ s.registry.agents h.nodeID = some k

/-- The state in which the handler acts on the message. -/
def acting (s : State) (c : Conn) (h : Handler) (a : Agent) : State :=
  s.setHandler c { h with phase := .acting a.message }

theorem step_read (hc : s.handlers c = some h) (hreading : h.phase = .reading)
    (hfits : a.message.length ≤ maxMessageBytes) :
    step J s (.handler c (.readMessage a.message)) = some (acting s c h a) := by
  simp only [step, hc, Handler.step, hreading, if_pos hfits, acting]

theorem step_act : step J (acting s c h a) (.handler c .act) =
    some ((acting s c h a).act c { h with phase := .acting a.message } a.message) := by
  have hc : (acting s c h a).handlers c = some { h with phase := .acting a.message } :=
    Function.update_self c _ s.handlers
  simp only [step, hc, Handler.step]

theorem not_mismatch_iff : ¬ State.Mismatch { h with phase := .acting a.message } a.delivered ↔
    toValid a.nodeID = [] ∨ toValid a.nodeID = h.nodeID := by
  simp only [State.Mismatch, Agent.delivered, not_and_or, not_not]

/-- The handler has registered the agent and not yet told the database. -/
def registered (s : State) (c : Conn) (h : Handler) (a : Agent) : State :=
  (acting s c h a).register c { h with phase := .acting a.message }
    { a.delivered with macAddress := h.nodeID }

theorem step_store : step J (registered s c h a) (.handler c (.updateNodeStatus true)) =
    some (((registered s c h a).updateNodeStatus h.nodeID
      { a.delivered with macAddress := h.nodeID }).setHandler c
        { h with registered := true, phase := .reading }) := by
  have hc : (registered s c h a).handlers c = some { h with
      registered := true
      phase := .storing { a.delivered with macAddress := h.nodeID } } :=
    Function.update_self c _ _
  simp only [step, hc, Handler.step, if_true]

theorem arrived_registered : Arrived s (((registered s c h a).updateNodeStatus h.nodeID
    { a.delivered with macAddress := h.nodeID }).setHandler c
      { h with registered := true, phase := .reading }) c h a where
  conn := Function.update_self h.nodeID _ _
  details := Function.update_self h.nodeID _ _
  row := Function.update_self h.nodeID _ _
  handler := Function.update_self c _ _
  others v hv := ⟨Function.update_of_ne hv _ _, Function.update_of_ne hv _ _,
    Function.update_of_ne hv _ _⟩
  handlers k hk := by
    simp [State.setHandler, State.updateNodeStatus, registered, acting, State.register, hk]
  jobs := rfl
  closed k := by
    simp only [State.setHandler, State.updateNodeStatus, registered, acting, State.register,
      AgentManager.register, Bool.or_eq_true, decide_eq_true_eq, Option.filter_eq_some_iff, bne_iff_ne]
    tauto

/-! ### A heartbeat of another node -/

/-- The connection is the one that the registry has for its node. -/
def Owns (s : State) (c : Conn) (h : Handler) : Prop :=
  h.registered = true ∧ s.registry.agents h.nodeID = some c

instance (s : State) (c : Conn) (h : Handler) : Decidable (Owns s c h) :=
  inferInstanceAs (Decidable (_ ∧ _))

/-- The handler reads the heartbeat and runs to its end, and the database takes what it writes. -/
def refusal (s : State) (c : Conn) (h : Handler) (a : Agent) : List Action :=
  [.handler c (.readMessage a.message), .handler c .act, .handler c .unregisterConn] ++
    if Owns s c h then [.handler c (.markNodeOffline true)] else []

/-- The connection is closed. Its node goes offline if the connection owned it, and nothing
else is changed. -/
structure Refused (s t : State) (c : Conn) (h : Handler) : Prop where
  handler : t.handlers c = some { h with phase := .returned }
  handlers : ∀ k ≠ c, t.handlers k = s.handlers k
  closed : ∀ k, t.closed k = true ↔ s.closed k = true ∨ k = c
  registry : t.registry = if Owns s c h then s.registry.unregister h.nodeID else s.registry
  row : t.nodes h.nodeID = if Owns s c h then
      (s.nodes h.nodeID).map fun row => { row with status := some (ascii "offline") }
    else s.nodes h.nodeID
  others : ∀ v ≠ h.nodeID, t.nodes v = s.nodes v

/-- The handler has refused the heartbeat and not yet cleaned up. -/
def leaving (s : State) (c : Conn) (h : Handler) (a : Agent) : State :=
  (acting s c h a).setHandler c { h with phase := .leaving }

theorem leaving_handlers : (leaving s c h a).handlers c = some { h with phase := .leaving } :=
  Function.update_self c _ _

theorem step_unregister (howns : Owns s c h) : step J (leaving s c h a) (.handler c .unregisterConn) =
    some ({ leaving s c h a with registry := s.registry.unregister h.nodeID }.setHandler c
      { h with phase := .unregistered }) := by
  obtain ⟨hregistered, hconn⟩ := howns
  have hmanager : (leaving s c h a).registry.agents h.nodeID = some c := hconn
  simp only [step, leaving_handlers, Handler.step, State.markOffline, hregistered, if_true,
    AgentManager.unregisterConn, hmanager]
  rfl

theorem step_leave (howns : ¬ Owns s c h) : step J (leaving s c h a) (.handler c .unregisterConn) =
    some ((leaving s c h a).ret c { h with phase := .leaving }) := by
  simp only [step, leaving_handlers, Handler.step, State.markOffline, AgentManager.unregisterConn]
  by_cases hregistered : h.registered = true
  · have hconn : (leaving s c h a).registry.agents h.nodeID ≠ some c := fun hconn =>
      howns ⟨hregistered, hconn⟩
    simp only [if_pos hregistered, if_neg hconn, Bool.false_eq_true, if_false]
  · simp only [if_neg hregistered]

theorem closed_iff (k : Conn) : Function.update s.closed c true k = true ↔
    s.closed k = true ∨ k = c := by
  by_cases hk : k = c <;> simp [hk]

theorem leaving_refused : ∃ t, Machine.run (step J) (leaving s c h a)
      (.handler c .unregisterConn ::
        if Owns s c h then [.handler c (.markNodeOffline true)] else []) = some t ∧
    Refused s t c h := by
  by_cases howns : Owns s c h
  · have hmark : step J ({ leaving s c h a with registry := s.registry.unregister h.nodeID }.setHandler
        c { h with phase := .unregistered }) (.handler c (.markNodeOffline true)) =
        some ((({ leaving s c h a with registry := s.registry.unregister h.nodeID }.setHandler
          c { h with phase := .unregistered }).markNodeOffline h.nodeID).ret c
            { h with phase := .unregistered }) := by
      have hc : ({ leaving s c h a with registry := s.registry.unregister h.nodeID }.setHandler
          c { h with phase := .unregistered }).handlers c =
            some { h with phase := .unregistered } := Function.update_self c _ _
      simp only [step, hc, Handler.step, if_true]
    rw [if_pos howns]
    refine ⟨_, (Machine.run_cons _).mpr ⟨_, step_unregister howns,
      (Machine.run_cons _).mpr ⟨_, hmark, rfl⟩⟩, ?_⟩
    constructor
    case handler => exact Function.update_self c _ _
    case handlers =>
      intro k hk
      simp [State.ret, State.close, State.setHandler, State.markNodeOffline, leaving, acting, hk]
    case closed => exact closed_iff
    case registry => rw [if_pos howns]; rfl
    case row => rw [if_pos howns]; exact Function.update_self h.nodeID _ _
    case others => exact fun v hv => Function.update_of_ne hv _ _
  · rw [if_neg howns]
    refine ⟨_, (Machine.run_cons _).mpr ⟨_, step_leave howns, rfl⟩, ?_⟩
    constructor
    case handler => exact Function.update_self c _ _
    case handlers =>
      intro k hk
      simp [State.ret, State.close, State.setHandler, leaving, acting, hk]
    case closed => exact closed_iff
    case registry => rw [if_neg howns]; rfl
    case row => rw [if_neg howns]; rfl
    case others => exact fun _ _ => rfl

/-- An agent that connects with the tokens of its own node is registered with what it sent, as
far as that encodes characters. An agent with the tokens of another node is disconnected. -/
theorem heartbeat_arrives (hc : s.handlers c = some h) (hreading : h.phase = .reading)
    (hfits : a.nodeID.length + a.hostname.length + a.goos.length ≤ 8192) :
    if toValid a.nodeID = [] ∨ toValid a.nodeID = h.nodeID then
      ∃ t, Machine.run (step J) s (ticks c a) = some t ∧ Arrived s t c h a
    else
      ∃ t, Machine.run (step J) s (refusal s c h a) = some t ∧ Refused s t c h := by
  have hread := step_read (J := J) hc hreading (message_length a hfits)
  have hact := step_act (J := J) (s := s) (c := c) (h := h) (a := a)
  split
  · rename_i hown
    have hregistered : (acting s c h a).act c { h with phase := .acting a.message } a.message =
        registered s c h a := by
      rw [State.act, heartbeat_message]
      exact if_neg (not_mismatch_iff.mpr hown)
    rw [hregistered] at hact
    refine ⟨_, ?_, arrived_registered⟩
    rw [ticks, Machine.run_cons]
    refine ⟨_, hread, ?_⟩
    rw [Machine.run_cons]
    refine ⟨_, hact, ?_⟩
    rw [Machine.run_cons]
    exact ⟨_, step_store, rfl⟩
  · rename_i hother
    have hleaving : (acting s c h a).act c { h with phase := .acting a.message } a.message =
        leaving s c h a := by
      rw [State.act, heartbeat_message]
      exact if_pos (not_not.mp fun hnot => hother (not_mismatch_iff.mp hnot))
    rw [hleaving] at hact
    obtain ⟨t, hrun, hrefused⟩ := leaving_refused (J := J) (s := s) (c := c) (h := h) (a := a)
    refine ⟨t, ?_, hrefused⟩
    rw [refusal, List.cons_append, Machine.run_cons]
    refine ⟨_, hread, ?_⟩
    rw [List.cons_append, Machine.run_cons]
    exact ⟨_, hact, hrun⟩

/-- Node `n1` on a host whose name is the byte FF. -/
def strangeHost : Agent := ⟨ascii "n1", [0xFF], ascii "linux", false⟩

def readingHandler : Handler := ⟨[], 0, ascii "n1", false, .reading⟩

private def waiting : State := (State.initial 0 fun _ => none).setHandler 1 readingHandler

/-- The agent of `n1` is registered, that of another node is not. -/
theorem heartbeat_arrives_strange :
    (∃ t, Machine.run (step testJwt) waiting (ticks 1 strangeHost) = some t ∧
      (t.registry.details (ascii "n1")).map AgentDetails.hostname = some [0xEF, 0xBF, 0xBD]) ∧
    ∃ t, Machine.run (step testJwt) waiting
        (refusal waiting 1 readingHandler { strangeHost with nodeID := ascii "n2" }) = some t ∧
      t.closed 1 = true ∧ t.registry.agents (ascii "n1") = none := by
  have hown : toValid strangeHost.nodeID = [] ∨ toValid strangeHost.nodeID = readingHandler.nodeID :=
    Or.inr (by decide)
  have hother : ¬ (toValid (ascii "n2") = [] ∨ toValid (ascii "n2") = readingHandler.nodeID) := by
    decide
  have hc : waiting.handlers 1 = some readingHandler := by
    simp [waiting, State.setHandler]
  have haccepted := heartbeat_arrives (J := testJwt) (a := strangeHost) hc rfl (by decide)
  have hrejected := heartbeat_arrives (J := testJwt)
    (a := { strangeHost with nodeID := ascii "n2" }) hc rfl (by decide)
  rw [if_pos hown] at haccepted
  rw [if_neg hother] at hrejected
  obtain ⟨t, hrun, harrived⟩ := haccepted
  obtain ⟨u, hrun', hrefused⟩ := hrejected
  refine ⟨⟨t, hrun, ?_⟩, u, hrun', (hrefused.closed 1).mpr (Or.inr rfl), ?_⟩
  · have hdetails : t.registry.details (ascii "n1") = _ := harrived.details
    have hname : toValid strangeHost.hostname = [0xEF, 0xBF, 0xBD] := by decide
    rw [hdetails, ← hname]
    rfl
  · have howns : ¬ Owns waiting 1 readingHandler := by decide
    rw [hrefused.registry, if_neg howns]
    rfl

end Patchli.Websocket
