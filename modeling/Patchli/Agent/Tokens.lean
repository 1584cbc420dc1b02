import Patchli.Agent.Run
import Patchli.Api.AuthHandlers

/-!
# The agent's tokens

`saveTokens` and `loadTokens`, and the request of `refreshTokens`. What the server and
the agent write for each other is read as it was meant, and only the answer to a refresh
changes the tokens of a running agent.
-/

namespace Patchli.Agent

open Json GoString

def pairFields (accessToken refreshToken : GoString) : Value := .object [
  (ascii "access_token", .string accessToken), (ascii "refresh_token", .string refreshToken)]

/-- What `saveTokens` writes to the token file. -/
def saveTokens (pair : TokenPair) : GoString :=
  render (pairFields pair.accessToken pair.refreshToken)

/-- The pair in the token file, if there is a file. -/
def loadTokens (file : Option GoString) : Option TokenPair :=
  (file.bind parse).bind (Wire.decodeStruct setTokenPair ⟨[], []⟩)

/-- The fields of a refresh request; a map is written in the order of its keys. -/
def refreshFields (nodeID refreshToken : GoString) : Value := .object [
  (ascii "mac", .string nodeID), (ascii "refresh_token", .string refreshToken)]

def refreshRequest (nodeID refreshToken : GoString) : Api.Request :=
  ⟨ascii "POST", render (refreshFields nodeID refreshToken)⟩

/-- The server's reply as the agent receives it. -/
def Response.ofReply (reply : Api.Reply) : Response :=
  ⟨reply.response.statusCode, reply.response.body⟩

def TokenPair.ofServer (pair : Auth.TokenPair) : TokenPair := ⟨pair.accessToken, pair.refreshToken⟩

theorem integral_pairFields (accessToken refreshToken : GoString) :
    Integral (pairFields accessToken refreshToken) := ⟨trivial, trivial, trivial⟩

theorem decode_pairFields (accessToken refreshToken : GoString) :
    Wire.decodeStruct setTokenPair ⟨[], []⟩ (decoded (pairFields accessToken refreshToken)) =
      some ⟨Utf8.toValid accessToken, Utf8.toValid refreshToken⟩ := rfl

theorem loadTokens_saveTokens {pair : TokenPair} (haccess : Utf8.Valid pair.accessToken)
    (hrefresh : Utf8.Valid pair.refreshToken) :
    loadTokens (some (saveTokens pair)) = some pair := by
  have hparse : parse (saveTokens pair) =
      some (decoded (pairFields pair.accessToken pair.refreshToken)) :=
    parse_render (integral_pairFields _ _)
  rw [loadTokens, Option.bind_some, hparse, Option.bind_some, decode_pairFields,
    Utf8.toValid_of_valid haccess, Utf8.toValid_of_valid hrefresh]

/-- The server reads the node and the token that the agent presents. -/
theorem decode_refreshRequest {nodeID refreshToken : GoString} (hnode : Utf8.Valid nodeID)
    (hrefresh : Utf8.Valid refreshToken)
    (hfits : (refreshRequest nodeID refreshToken).body.length ≤ Api.maxAuthBodyBytes) :
    Api.decodeRefreshRequest (refreshRequest nodeID refreshToken).body =
      some ⟨nodeID, refreshToken⟩ := by
  have hintegral : Integral (refreshFields nodeID refreshToken) := ⟨trivial, trivial, trivial⟩
  have hparse : parseFirst (render (refreshFields nodeID refreshToken) ++ []) =
      some (decoded (refreshFields nodeID refreshToken)) :=
    parseFirst_render hintegral delimited_nil
  have hfields : Wire.decodeStruct Api.setRefreshRequest ⟨[], []⟩
      (decoded (refreshFields nodeID refreshToken)) =
      some ⟨Utf8.toValid nodeID, Utf8.toValid refreshToken⟩ := rfl
  rw [List.append_nil] at hparse
  rw [Api.decodeRefreshRequest, Api.decodeBody, List.take_of_length_le hfits]
  change (parseFirst (render _)).bind _ = _
  rw [hparse, Option.bind_some, hfields, Utf8.toValid_of_valid hnode,
    Utf8.toValid_of_valid hrefresh]

section

variable {L : NetURL} {cfg : Config} {u : URL}

theorem refreshTokens_pair
    (hu : controllerEndpoint L cfg cfg.serverURL (ascii "/api/v1/auth/refresh") = .ok u)
    {pair : Auth.TokenPair} (haccess : Utf8.Valid pair.accessToken)
    (hrefresh : Utf8.Valid pair.refreshToken) :
    refreshTokens L cfg (some (.ofReply (.pair pair))) = some (.ofServer pair) := by
  have hparse : parseFirst (render (pairFields pair.accessToken pair.refreshToken) ++ [0x0A]) =
      some (decoded (pairFields pair.accessToken pair.refreshToken)) :=
    parseFirst_render (integral_pairFields _ _) (delimited_cons (by decide))
  have hbody : (Response.ofReply (.pair pair)).body =
      render (pairFields pair.accessToken pair.refreshToken) ++ [0x0A] := rfl
  have hstatus : (Response.ofReply (.pair pair)).statusCode = statusOK := rfl
  simp only [refreshTokens, hu, Option.bind_some, hstatus, if_true, hbody, hparse,
    decode_pairFields, Utf8.toValid_of_valid haccess, Utf8.toValid_of_valid hrefresh]
  rfl

theorem refreshTokens_status {answer : Option Response}
    (h : ∀ resp ∈ answer, resp.statusCode ≠ statusOK) : refreshTokens L cfg answer = none := by
  unfold refreshTokens
  split
  · rfl
  · cases answer with
    | none => rfl
    | some resp => simp [h resp rfl]

end

/-! ### The agent between two refreshes -/

section

variable (L : NetURL) (cfg : Config)

/-- Whether requests to an endpoint are made at all. -/
def reaches (endpoint : GoString) : Bool :=
  match controllerEndpoint L cfg cfg.serverURL endpoint with
  | .error _ => false
  | .ok _ => true

/-- The endpoint of the agent's next request and the tokens it presents there. -/
def State.attempt (s : State) : Option (GoString × Option TokenPair) :=
  match s.phase with
  | .connecting => some (ascii "/ws", s.tokens)
  | .polling tokens => some (ascii "/api/v1/poll", tokens)
  | _ => none

/-- The refresh token that the agent presents when that request is refused. -/
def asks (s : State) : Option GoString :=
  (s.attempt.filter fun p => reaches L cfg p.1 &&
    reaches L cfg (ascii "/api/v1/auth/refresh")).bind fun p => p.2.map (·.refreshToken)

end

/-- The request was refused, and this is the answer to the refresh. -/
def State.refused (s : State) (answer : Option Response) : Option Input :=
  match s.phase with
  | .connecting => some (.dial (.unauthorized answer))
  | .polling _ => some (.poll (some ⟨statusUnauthorized, []⟩) answer)
  | _ => none

/-- Inputs within one process that bring no answer to a refresh. The context of `main` is
never cancelled. -/
def Input.plain : Input → Bool
  | .boot _ | .cancelled | .dial (.unauthorized (some _)) | .poll _ (some _) => false
  | _ => true

def State.running (s : State) : Bool :=
  match s.phase with
  | .boot | .stopped => false
  | _ => true

def State.pair (s : State) : Option TokenPair :=
  match s.phase with
  | .polling tokens => tokens
  | _ => s.tokens

section

variable {E : Ed25519} {L : NetURL} {cfg : Config} {s t : State} {x : Input} {token : GoString}
  {answer : Option Response}

theorem reaches_iff {endpoint : GoString} : reaches L cfg endpoint = true ↔
    ∃ u, controllerEndpoint L cfg cfg.serverURL endpoint = .ok u := by
  unfold reaches
  split <;> rename_i h <;> simp [h]

theorem step_plain (hx : x.plain = true) (h : step E L cfg s x = some t) :
    t.running = s.running ∧ t.pair = s.pair := by
  have hnone : refreshTokens L cfg none = none := refreshTokens_status nofun
  have hexecute (tokens : Option TokenPair) (url : URL) (cmd : CommandPayload) :
      (verifyAndExecute E cfg s tokens url cmd).running = s.running ∧
        (verifyAndExecute E cfg s tokens url cmd).pair = s.pair := by
    obtain ⟨hphase, htokens, -⟩ := @verifyAndExecute_frame E cfg s tokens url cmd
    simp [State.running, State.pair, hphase, htokens]
  cases step_moves h with
  | clock | sign | ignores | pollFails => exact ⟨rfl, rfl⟩
  | boot | fatal | cancelled => cases hx
  | connects hphase | polls hphase | waits hphase | disconnects hphase | elapsed hphase =>
    simp [State.running, State.pair, hphase]
  | receives | polled => exact hexecute _ _ _
  | @refreshes refresh newTokens hphase hrefresh | @pollRefreshes _ _ refresh newTokens hphase hrefresh =>
    -- a plain input has no response to a refresh
    cases refresh with
    | some => cases hx
    | none =>
      rw [hnone] at hrefresh
      cases hrefresh

theorem asks_eq_some (h : asks L cfg s = some token) : ∃ endpoint pair,
    s.attempt = some (endpoint, some pair) ∧ pair.refreshToken = token ∧
      reaches L cfg endpoint = true ∧ reaches L cfg (ascii "/api/v1/auth/refresh") = true := by
  obtain ⟨⟨endpoint, tokens⟩, hp, htoken⟩ := Option.bind_eq_some_iff.mp h
  obtain ⟨hattempt, hreaches⟩ := Option.filter_eq_some_iff.mp hp
  obtain ⟨pair, rfl, hpair⟩ := Option.map_eq_some_iff.mp htoken
  rw [Bool.and_eq_true] at hreaches
  exact ⟨endpoint, pair, hattempt, hpair, hreaches⟩

theorem attempt_eq_some {endpoint : GoString} {tokens : Option TokenPair}
    (h : s.attempt = some (endpoint, tokens)) : s.running = true ∧ s.pair = tokens := by
  unfold State.attempt at h
  split at h <;> cases h <;> rename_i hphase <;> simp [State.running, State.pair, hphase]

/-- The answer to a refresh replaces the tokens if it brings new ones. -/
theorem step_refused (hasks : asks L cfg s = some token) (hx : s.refused answer = some x)
    (h : step E L cfg s x = some t) :
    t.running = true ∧ t.pair = (refreshTokens L cfg answer).or s.pair := by
  obtain ⟨endpoint, pair, hattempt, -, hreaches, -⟩ := asks_eq_some hasks
  obtain ⟨u, hu⟩ := reaches_iff.mp hreaches
  unfold State.attempt at hattempt
  split at hattempt
  · rename_i hphase
    obtain ⟨rfl, htokens⟩ := Prod.mk.inj (Option.some.inj hattempt)
    simp only [State.refused, hphase, Option.some.injEq] at hx
    subst hx
    simp only [step, hphase, connectAndRun, htokens, hu, Option.some.injEq] at h
    subst h
    cases refreshTokens L cfg answer <;> simp [State.running, State.pair, hphase, htokens]
  · rename_i tokens hphase
    obtain ⟨rfl, rfl⟩ := Prod.mk.inj (Option.some.inj hattempt)
    simp only [State.refused, hphase, Option.some.injEq] at hx
    subst hx
    simp only [step, hphase, pollOnce, hu, Option.some.injEq] at h
    subst h
    cases refreshTokens L cfg answer <;>
      simp [State.running, State.pair, hphase, statusUnauthorized, statusOK]
  · cases hattempt

theorem step_boot {saved : Option TokenPair} (h : step E L cfg s (.boot saved) = some t) :
    s.running = false ∧ (t.running = true → t.pair = saved) := by
  cases step_moves h with
  | boot hphase => exact ⟨by simp [State.running, hphase], fun _ => rfl⟩
  | fatal hphase => exact ⟨by simp [State.running, hphase], by simp [State.running]⟩

end

end Patchli.Agent
