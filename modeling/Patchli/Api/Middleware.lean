import Patchli.Api.AuthHandlers
import Patchli.Api.RateLimit
import Patchli.Foundation.IPText

/-!
# Who is let in

The routes of `main.go` and the middleware before their handlers. Administration needs
the token of the server; login and refresh share one rate limiter.
-/

namespace Patchli.Api

open Auth NetIP

/-! ### Routes -/

/-- The handlers that `main` registers. -/
inductive Route
  | health
  | static
  | dashboard
  | setupUI
  | nodes
  | stats
  | setup
  | revoke
  | login
  | refresh
  | ws
  deriving DecidableEq

/-- The patterns without a trailing slash. -/
def routes : List (GoString × Route) := [
  (ascii "/health", .health), (ascii "/setup", .setupUI), (ascii "/api/v1/nodes", .nodes),
  (ascii "/api/v1/stats", .stats), (ascii "/api/v1/setup", .setup),
  (ascii "/api/v1/nodes/revoke", .revoke), (ascii "/api/v1/auth/login", .login),
  (ascii "/api/v1/auth/refresh", .refresh), (ascii "/ws", .ws)]

/-- The handler for a path that `ServeMux` has cleaned; `none` is a redirect. -/
def mux (path : GoString) : Option Route :=
  match routes.find? fun e => e.1 = path with
  | some e => some e.2
  | none =>
    if ascii "/static/" <+: path then some .static
    else if path = ascii "/static" then none
    else some .dashboard

variable {adminToken : GoString} {rl : RateLimiter} {r : Incoming} {rs : List Incoming}

end Patchli.Api
