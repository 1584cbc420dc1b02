import Mathlib.Data.List.DropRight
import Patchli.Foundation.GoString

/-!
# The controller's endpoints

`transport.go`. What the agent asks of `net/url` and `net` is a parameter.
-/

namespace Patchli.Agent

open GoString

/-- `url.URL`. -/
structure URL where
  scheme : GoString
  /-- Whether there is user information. -/
  user : Bool
  host : GoString
  path : GoString
  rawPath : GoString
  forceQuery : Bool
  rawQuery : GoString
  fragment : GoString

/-- The functions of `net/url` and `net`. -/
structure NetURL where
  parse : GoString → Option URL
  hostname : URL → GoString
  escapedPath : URL → GoString
  pathUnescape : GoString → Option GoString
  /-- Whether an IP address is a loopback address; `none` for any other text. -/
  parseIP : GoString → Option Bool

/-- The agent's environment variables and its node ID. -/
structure Config where
  serverURL : GoString
  allowInsecureLoopback : Bool
  commandPubKey : GoString
  nodeID : GoString

inductive EndpointError
  | invalidURL
  | notOrigin
  | requiresHTTPS
  | plainHTTP
  | requiresPubKey
  | invalidPath

def http : GoString := ascii "http"

def https : GoString := ascii "https"

/-- `SERVER_URL` as the agent completes it. -/
def completeURL (raw : GoString) : GoString :=
  let raw := if raw = [] then ascii "localhost:8080" else raw
  if ascii "://" <:+: raw then raw else https ++ ascii "://" ++ raw

/-- An origin, with a base path at most. -/
def isOrigin (L : NetURL) (u : URL) : Bool :=
  L.hostname u ≠ [] && !u.user && u.rawQuery = [] && !u.forceQuery && u.fragment = [] &&
    (u.scheme = https || u.scheme = http)

def isLoopback (L : NetURL) (u : URL) : Bool :=
  (L.parseIP (L.hostname u)).getD (equalFold (L.hostname u) (ascii "localhost"))

def controllerEndpoint (L : NetURL) (cfg : Config) (raw endpoint : GoString) :
    Except EndpointError URL :=
  match L.parse (completeURL raw) with
  | none => .error .invalidURL
  | some u =>
    if !isOrigin L u then .error .notOrigin
    else if u.scheme = http ∧ isLoopback L u = false then .error .requiresHTTPS
    else if u.scheme = http ∧ cfg.allowInsecureLoopback = false then .error .plainHTTP
    else if u.scheme = http ∧ cfg.commandPubKey = [] then .error .requiresPubKey
    else
      let rawPath := (L.escapedPath u).rdropWhile (· = 0x2F) ++ endpoint
      match L.pathUnescape rawPath with
      | none => .error .invalidPath
      | some path => .ok { u with rawPath := rawPath, path := path }

/-- The endpoint with the scheme of a websocket. -/
def websocketURL (u : URL) : URL :=
  { u with scheme := if u.scheme = https then ascii "wss" else ascii "ws" }

/-- Without a key for commands there is no plain HTTP. -/
theorem controllerEndpoint_scheme {L : NetURL} {cfg : Config} {raw endpoint : GoString} {u : URL}
    (h : controllerEndpoint L cfg raw endpoint = .ok u) :
    u.scheme = https ∨
      u.scheme = http ∧ cfg.allowInsecureLoopback = true ∧ cfg.commandPubKey ≠ [] := by
  unfold controllerEndpoint at h
  split at h
  · cases h
  · rename_i v hv
    split_ifs at h with horigin hloopback hallow hkey
    dsimp only at h
    split at h
    · cases h
    · cases h
      have hscheme : v.scheme = https ∨ v.scheme = http := by
        simp only [isOrigin, Bool.not_eq_true', Bool.not_eq_false, Bool.and_eq_true,
          Bool.or_eq_true, decide_eq_true_eq] at horigin
        exact horigin.2
      rcases hscheme with hs | hs
      · exact Or.inl hs
      · refine Or.inr ⟨hs, ?_, ?_⟩
        · simpa [hs] using hallow
        · simpa [hs] using hkey

/-- The transport of a session: an endpoint of the controller, or its websocket. -/
def FromController (L : NetURL) (cfg : Config) (url : URL) : Prop :=
  ∃ endpoint u, controllerEndpoint L cfg cfg.serverURL endpoint = .ok u ∧
    (url = u ∨ url = websocketURL u)

theorem FromController.secure {L : NetURL} {cfg : Config} {url : URL}
    (h : FromController L cfg url) (hkey : cfg.commandPubKey = []) :
    url.scheme = https ∨ url.scheme = ascii "wss" := by
  obtain ⟨endpoint, u, hu, hurl⟩ := h
  have hscheme : u.scheme = https := by
    rcases controllerEndpoint_scheme hu with hs | ⟨-, -, hne⟩
    · exact hs
    · exact absurd hkey hne
  rcases hurl with rfl | rfl
  · exact Or.inl hscheme
  · exact Or.inr (if_pos hscheme)

end Patchli.Agent
