import Patchli.Agent.CommandAuth
import Patchli.Agent.Endpoint
import Patchli.Foundation.Machine

/-!
# The agent's loops

`RunAgent` with its websocket session, and `startHTTPPolling`. Whatever answers the
agent is an input: texts, statuses and failures come in any order. The clock can be
set to any time. The server's calls of `cmdsign.Sign` are inputs too; the agent does
not see them.
-/

namespace Patchli.Agent

open Json GoString

structure TokenPair where
  accessToken : GoString
  refreshToken : GoString
  deriving DecidableEq

def setTokenPair (pair : TokenPair) (key : GoString) (v : Value) : Option TokenPair :=
  if key.equalFold (ascii "access_token") then
    (Wire.decodeString pair.accessToken v).map fun s => { pair with accessToken := s }
  else if key.equalFold (ascii "refresh_token") then
    (Wire.decodeString pair.refreshToken v).map fun s => { pair with refreshToken := s }
  else some pair

structure Response where
  statusCode : ℕ
  body : GoString

def statusOK : ℕ := 200

def statusUnauthorized : ℕ := 401

/-- The cap on a polled command. -/
def maxCommandBytes : ℕ := 2 ^ 20

/-- A call of `cmdsign.Sign` and the server's time then. -/
structure SignCall where
  cmd : CommandPayload
  nodeID : GoString
  time : Time

/-- The command that the call returned. -/
def SignCall.signed (E : Ed25519) (key : GoString) (call : SignCall) : CommandPayload :=
  Cmdsign.sign E (some key) call.time call.cmd call.nodeID

/-- A command handed to `executeCommand`, with the tokens of the session, the
endpoint it came from, and the time when it was verified. -/
structure Execution where
  cmd : CommandPayload
  tokens : Option TokenPair
  url : URL
  time : Time

inductive Phase
  | boot
  | connecting
  /-- A websocket session. -/
  | connected (tokens : TokenPair) (url : URL)
  /-- In `startHTTPPolling`, which has its own variable for the tokens. -/
  | polling (tokens : Option TokenPair)
  /-- For 30 seconds after an error. -/
  | waiting
  | stopped

structure State where
  phase : Phase
  tokens : Option TokenPair
  seen : SeenCommands
  now : Time
  signCalls : List SignCall
  executed : List Execution

def State.init (now : Time) : State := ⟨.boot, none, fun _ => none, now, [], []⟩

/-- The outcome of dialing. -/
inductive Dial
  | connected
  /-- Refused with 401; the response to the refresh request, if there is one. -/
  | unauthorized (refresh : Option Response)
  | failed

inductive Input
  | clock (t : Time)
  | sign (call : SignCall)
  /-- Starting, with the tokens of the token file. -/
  | boot (saved : Option TokenPair)
  | dial (answer : Dial)
  /-- A message of the session, or the session's end. -/
  | message (text : Option GoString)
  /-- The response to a poll request, and the one to a refresh request after it. -/
  | poll (reply refresh : Option Response)
  | elapsed
  | cancelled

section

variable (E : Ed25519) (L : NetURL) (cfg : Config)

/-- The new tokens, from the response to the refresh request. -/
def refreshTokens (reply : Option Response) : Option TokenPair :=
  match controllerEndpoint L cfg cfg.serverURL (ascii "/api/v1/auth/refresh") with
  | .error _ => none
  | .ok _ =>
    reply.bind fun resp =>
      if resp.statusCode = statusOK then
        (parseFirst resp.body).bind (Wire.decodeStruct setTokenPair ⟨[], []⟩)
      else none

/-- Verify a command and hand it to `executeCommand`. -/
def verifyAndExecute (s : State) (tokens : Option TokenPair) (url : URL) (cmd : CommandPayload) :
    State :=
  let (err, seen) := verifyCommand E cfg.commandPubKey s.seen cmd cfg.nodeID s.now
  match err with
  | some _ => { s with seen := seen }
  | none => { s with seen := seen, executed := s.executed ++ [⟨cmd, tokens, url, s.now⟩] }

/-- The start of `RunAgent`; a bad configuration is fatal. -/
def boot (s : State) (saved : Option TokenPair) : State :=
  match controllerEndpoint L cfg cfg.serverURL [] with
  | .error _ => { s with phase := .stopped }
  | .ok _ => { s with phase := .connecting, tokens := saved }

/-- `connectAndRun` up to its receive loop. -/
def connectAndRun (s : State) (answer : Dial) : State :=
  match s.tokens with
  | none => { s with phase := .polling none }
  | some tokens =>
    match controllerEndpoint L cfg cfg.serverURL (ascii "/ws") with
    | .error _ => { s with phase := .waiting }
    | .ok u =>
      match answer with
      | .connected => { s with phase := .connected tokens (websocketURL u) }
      | .failed => { s with phase := .polling (some tokens) }
      | .unauthorized refresh =>
        match refreshTokens L cfg refresh with
        | some newTokens => { s with tokens := some newTokens }
        | none => { s with phase := .polling (some tokens) }

/-- The body of the receive loop. -/
def receiveMessage (s : State) (tokens : TokenPair) (url : URL) (text : Option GoString) : State :=
  match text.bind Wire.receive with
  | none => { s with phase := .waiting }
  | some none => s
  | some (some cmd) => verifyAndExecute E cfg s (some tokens) url cmd

/-- The command in the body of a poll response. -/
def polledCommand (body : GoString) : Option CommandPayload :=
  ((parseFirst (body.take maxCommandBytes)).bind Wire.decodeCommand).filter
    fun cmd => cmd.action ≠ []

/-- The body of the polling loop. -/
def pollOnce (s : State) (tokens : Option TokenPair) (reply refresh : Option Response) : State :=
  match controllerEndpoint L cfg cfg.serverURL (ascii "/api/v1/poll") with
  | .error _ => s
  | .ok u =>
    match reply with
    | none => s
    | some resp =>
      if resp.statusCode = statusOK then
        match polledCommand resp.body, tokens with
        | some cmd, some pair => verifyAndExecute E cfg s (some pair) u cmd
        | _, _ => s
      else if resp.statusCode = statusUnauthorized ∧ tokens.isSome then
        match refreshTokens L cfg refresh with
        | some newTokens => { s with phase := .polling (some newTokens) }
        | none => s
      else s

def step (s : State) : Input → Option State
  | .clock t => some { s with now := t }
  | .sign call => some { s with signCalls := s.signCalls ++ [call] }
  | .boot saved =>
    match s.phase with
    | .boot => some (boot L cfg s saved)
    | _ => none
  | .dial answer =>
    match s.phase with
    | .connecting => some (connectAndRun L cfg s answer)
    | _ => none
  | .message text =>
    match s.phase with
    | .connected tokens url => some (receiveMessage E cfg s tokens url text)
    | _ => none
  | .poll reply refresh =>
    match s.phase with
    | .polling tokens => some (pollOnce E L cfg s tokens reply refresh)
    | _ => none
  | .elapsed =>
    match s.phase with
    | .waiting => some { s with phase := .connecting }
    | _ => none
  | .cancelled =>
    match s.phase with
    | .waiting | .polling _ => some { s with phase := .stopped }
    | _ => none

end

/-- The command that an input carries. -/
def Input.command : Input → Option CommandPayload
  | .message (some text) => (Wire.receive text).join
  | .poll (some resp) _ => polledCommand resp.body
  | _ => none

/-! ### What a step does -/

section

variable (E : Ed25519) (L : NetURL) (cfg : Config)

/-- The effects of the steps, with what each of them requires. -/
inductive Moves (s : State) : Input → State → Prop
  | clock {now : Time} : Moves s (.clock now) { s with now := now }
  | sign {call : SignCall} : Moves s (.sign call) { s with signCalls := s.signCalls ++ [call] }
  | boot {saved : Option TokenPair} : s.phase = .boot →
      Moves s (.boot saved) { s with phase := .connecting, tokens := saved }
  | fatal {saved : Option TokenPair} : s.phase = .boot →
      Moves s (.boot saved) { s with phase := .stopped }
  | connects {tokens : TokenPair} {u : URL} : s.phase = .connecting → s.tokens = some tokens →
      controllerEndpoint L cfg cfg.serverURL (ascii "/ws") = .ok u →
      Moves s (.dial .connected) { s with phase := .connected tokens (websocketURL u) }
  | refreshes {refresh : Option Response} {newTokens : TokenPair} : s.phase = .connecting →
      refreshTokens L cfg refresh = some newTokens →
      Moves s (.dial (.unauthorized refresh)) { s with tokens := some newTokens }
  | polls {answer : Dial} : s.phase = .connecting →
      Moves s (.dial answer) { s with phase := .polling s.tokens }
  | waits {answer : Dial} : s.phase = .connecting →
      Moves s (.dial answer) { s with phase := .waiting }
  | receives {tokens : TokenPair} {url : URL} {text : GoString} {cmd : CommandPayload} :
      s.phase = .connected tokens url → Wire.receive text = some (some cmd) →
      Moves s (.message (some text)) (verifyAndExecute E cfg s (some tokens) url cmd)
  | ignores {tokens : TokenPair} {url : URL} {text : Option GoString} :
      s.phase = .connected tokens url → Moves s (.message text) s
  | disconnects {tokens : TokenPair} {url : URL} {text : Option GoString} :
      s.phase = .connected tokens url → Moves s (.message text) { s with phase := .waiting }
  | polled {tokens : TokenPair} {u : URL} {resp : Response} {refresh : Option Response}
      {cmd : CommandPayload} : s.phase = .polling (some tokens) →
      controllerEndpoint L cfg cfg.serverURL (ascii "/api/v1/poll") = .ok u →
      polledCommand resp.body = some cmd →
      Moves s (.poll (some resp) refresh) (verifyAndExecute E cfg s (some tokens) u cmd)
  | pollRefreshes {tokens : Option TokenPair} {reply refresh : Option Response}
      {newTokens : TokenPair} : s.phase = .polling tokens →
      refreshTokens L cfg refresh = some newTokens →
      Moves s (.poll reply refresh) { s with phase := .polling (some newTokens) }
  | pollFails {tokens : Option TokenPair} {reply refresh : Option Response} :
      s.phase = .polling tokens → Moves s (.poll reply refresh) s
  | elapsed : s.phase = .waiting → Moves s .elapsed { s with phase := .connecting }
  | cancelled : (s.phase = .waiting ∨ ∃ tokens, s.phase = .polling tokens) →
      Moves s .cancelled { s with phase := .stopped }

end

variable {E : Ed25519} {L : NetURL} {cfg : Config} {s t : State}

theorem boot_moves (hphase : s.phase = .boot) (saved : Option TokenPair) :
    Moves E L cfg s (.boot saved) (boot L cfg s saved) := by
  unfold boot
  split
  · exact .fatal hphase
  · exact .boot hphase

theorem connectAndRun_moves (hphase : s.phase = .connecting) (answer : Dial) :
    Moves E L cfg s (.dial answer) (connectAndRun L cfg s answer) := by
  have hpolls {tokens : Option TokenPair} (htokens : s.tokens = tokens) :
      Moves E L cfg s (.dial answer) { s with phase := .polling tokens } := by
    subst htokens
    exact .polls hphase
  unfold connectAndRun
  split
  · exact hpolls ‹_›
  · rename_i tokens htokens
    split
    · exact .waits hphase
    · rename_i u hu
      cases answer with
      | connected => exact .connects hphase htokens hu
      | failed => exact hpolls htokens
      | unauthorized refresh =>
        simp only
        split
        · rename_i newTokens hrefresh
          exact .refreshes hphase hrefresh
        · exact hpolls htokens

theorem receiveMessage_moves {tokens : TokenPair} {url : URL} (hphase : s.phase = .connected tokens url)
    (text : Option GoString) :
    Moves E L cfg s (.message text) (receiveMessage E cfg s tokens url text) := by
  unfold receiveMessage
  split
  · exact .disconnects hphase
  · exact .ignores hphase
  · rename_i cmd hcmd
    obtain ⟨text, rfl, hreceive⟩ := Option.bind_eq_some_iff.mp hcmd
    exact .receives hphase hreceive

theorem pollOnce_moves {tokens : Option TokenPair} (hphase : s.phase = .polling tokens)
    (reply refresh : Option Response) :
    Moves E L cfg s (.poll reply refresh) (pollOnce E L cfg s tokens reply refresh) := by
  unfold pollOnce
  split
  · exact .pollFails hphase
  · rename_i u hu
    split
    · exact .pollFails hphase
    · split
      · split
        · rename_i cmd pair hcmd
          exact .polled hphase hu hcmd
        · exact .pollFails hphase
      · split
        · split
          · rename_i newTokens hrefresh
            exact .pollRefreshes hphase hrefresh
          · exact .pollFails hphase
        · exact .pollFails hphase

theorem step_moves {a : Input} (h : step E L cfg s a = some t) : Moves E L cfg s a t := by
  cases a with
  | clock now =>
    cases h
    exact .clock
  | sign call =>
    cases h
    exact .sign
  | boot saved =>
    simp only [step] at h
    split at h <;> cases h
    exact boot_moves ‹_› saved
  | dial answer =>
    simp only [step] at h
    split at h <;> cases h
    exact connectAndRun_moves ‹_› answer
  | message text =>
    simp only [step] at h
    split at h <;> cases h
    exact receiveMessage_moves ‹_› text
  | poll reply refresh =>
    simp only [step] at h
    split at h <;> cases h
    exact pollOnce_moves ‹_› reply refresh
  | elapsed =>
    simp only [step] at h
    split at h <;> cases h
    exact .elapsed ‹_›
  | cancelled =>
    simp only [step] at h
    split at h <;> cases h
    · exact .cancelled (Or.inl ‹_›)
    · exact .cancelled (Or.inr ⟨_, ‹_›⟩)

/-- Verification changes only the cache and the executions. -/
theorem verifyAndExecute_frame (s : State) (tokens : Option TokenPair) (url : URL)
    (cmd : CommandPayload) :
    (verifyAndExecute E cfg s tokens url cmd).phase = s.phase ∧
      (verifyAndExecute E cfg s tokens url cmd).tokens = s.tokens ∧
        (verifyAndExecute E cfg s tokens url cmd).signCalls = s.signCalls := by
  unfold verifyAndExecute
  dsimp only
  split <;> exact ⟨rfl, rfl, rfl⟩

end Patchli.Agent
