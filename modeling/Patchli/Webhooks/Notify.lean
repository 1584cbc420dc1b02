import Patchli.Command.Wire
import Patchli.Webhooks.Filter
import Patchli.Webhooks.Transport

/-!
# Webhook notifications

`NotifyWebhooks` starts a goroutine for each configured URL, which posts the payload
through the one client of the package. The client dials with `dialWebhook` and may post
over a connection that it opened earlier for the same scheme and address.
-/

namespace Patchli.Webhooks

open Json Utf8 Wire

/-! ### Payloads -/

structure WebhookPayload where
  event : GoString
  message : GoString
  jobID : GoString
  nodeMac : GoString
  deriving DecidableEq

def WebhookPayload.value (p : WebhookPayload) : Value := .object (
  [(ascii "event", .string p.event), (ascii "message", .string p.message)] ++
    (omitEmptyString (ascii "job_id") p.jobID ++ omitEmptyString (ascii "node_mac") p.nodeMac))

/-- `json.Marshal` of a payload. -/
def WebhookPayload.marshal (p : WebhookPayload) : GoString := render p.value

def setPayload (p : WebhookPayload) (key : GoString) (v : Value) : Option WebhookPayload :=
  if key.equalFold (ascii "event") then
    (decodeString p.event v).map fun s => { p with event := s }
  else if key.equalFold (ascii "message") then
    (decodeString p.message v).map fun s => { p with message := s }
  else if key.equalFold (ascii "job_id") then
    (decodeString p.jobID v).map fun s => { p with jobID := s }
  else if key.equalFold (ascii "node_mac") then
    (decodeString p.nodeMac v).map fun s => { p with nodeMac := s }
  else some p

/-- What the receiver of a webhook reads from a body. -/
def decodePayload (body : GoString) : Option WebhookPayload :=
  (parseFirst body).bind (decodeStruct setPayload ⟨[], [], [], []⟩)

/-- What arrives of a payload. -/
def WebhookPayload.delivered (p : WebhookPayload) : WebhookPayload :=
  ⟨toValid p.event, toValid p.message, toValid p.jobID, toValid p.nodeMac⟩

theorem integral_value (p : WebhookPayload) : Integral p.value := by
  have hstring (name s : GoString) : IntegralMembers (omitEmptyString name s) :=
    integral_omitEmpty trivial
  have hfirst : IntegralMembers [(ascii "event", .string p.event),
      (ascii "message", .string p.message)] := ⟨trivial, trivial, trivial⟩
  exact integralMembers_append hfirst (integralMembers_append (hstring _ _) (hstring _ _))

theorem decodePayload_marshal (p : WebhookPayload) :
    decodePayload p.marshal = some p.delivered := by
  have hparse : parseFirst (render p.value ++ []) = some (decoded p.value) :=
    parseFirst_render (integral_value p) delimited_nil
  rw [List.append_nil] at hparse
  rw [decodePayload, WebhookPayload.marshal, hparse, Option.bind_some]
  obtain ⟨event, message, jobID, nodeMac⟩ := p
  -- each of the two identifiers is omitted or not
  cases jobID <;> cases nodeMac <;> rfl

/-! ### Requests -/

/-- A POST of JSON. -/
structure Request where
  url : GoString
  body : GoString
  deriving DecidableEq

/-- The request that `sendWebhook` makes; `none` when it returns before. -/
def sendWebhook (targetURL : GoString) (payload : WebhookPayload) : Option Request :=
  if !isValidURL targetURL then none else some ⟨targetURL, payload.marshal⟩

/-- The environment of the server. -/
structure Environment where
  slackWebhookURL : GoString
  teamsWebhookURL : GoString
  discordWebhookURL : GoString

def Environment.urls (env : Environment) : List GoString :=
  [env.slackWebhookURL, env.teamsWebhookURL, env.discordWebhookURL]

/-- The requests of the goroutines that `NotifyWebhooks` starts. -/
def notifyWebhooks (env : Environment) (payload : WebhookPayload) : List Request :=
  env.urls.filterMap fun u =>
    if u = [] then none
    else if !isValidURL u then none
    else sendWebhook u payload

theorem mem_notifyWebhooks {env : Environment} {payload : WebhookPayload} {r : Request} :
    r ∈ notifyWebhooks env payload ↔
      r.url ∈ env.urls ∧ r.url ≠ [] ∧ isValidURL r.url = true ∧ r.body = payload.marshal := by
  obtain ⟨url, body⟩ := r
  simp only [notifyWebhooks, sendWebhook, List.mem_filterMap]
  constructor
  · rintro ⟨u, hu, h⟩
    split_ifs at h with hempty hvalid
    cases h
    exact ⟨hu, hempty, by simpa using hvalid, rfl⟩
  · rintro ⟨hu, hempty, hvalid, rfl⟩
    exact ⟨url, hu, by simp [hempty, hvalid]⟩

/-! ### The client -/

/-- A connection of the transport, with what it was opened for. -/
structure Conn where
  scheme : GoString
  address : GoString
  dial : Dial
  deriving DecidableEq

structure Post where
  request : Request
  conn : Conn
  deriving DecidableEq

/-- `webhookClient` and the goroutines that use it. The lists of started and failed
requests, of dials and of posts are records. -/
structure Client where
  /-- The requests in progress. -/
  pending : List Request
  conns : List Conn
  dials : List Dial
  posts : List Post
  failed : List Request
  started : List Request

def Client.new : Client := ⟨[], [], [], [], [], []⟩

/-- The answers of the resolver and of the dials of one call of `dialWebhook`. -/
structure Network where
  lookup : GoString → Except GoString (List GoString)
  dial : ℕ → Except GoString Unit

inductive Client.Act
  /-- The transport dials for the `k`-th request in progress. -/
  | dial (k : ℕ) (net : Network)
  /-- The `k`-th request is written to a connection. Redirects are not followed, so
  nothing more is sent for it. -/
  | post (k : ℕ) (c : Conn)
  /-- `Do` fails before the request is written, for instance after ten seconds. -/
  | fail (k : ℕ)

namespace Client

def start (s : Client) (rs : List Request) : Client :=
  { s with pending := s.pending ++ rs, started := s.started ++ rs }

section

-- The address of a URL, in ASCII and with a port.
variable (canonicalAddr : Url.URL → GoString)

/-- The connection that a call of `dialWebhook` opened; its last dial was the first to
succeed. -/
def opened (u : Url.URL) (r : (Option Unit × Option (DialError GoString)) × List Dial) :
    List Conn :=
  match r.1.1, r.2.getLast? with
  | some _, some d => [⟨u.scheme, canonicalAddr u, d⟩]
  | _, _ => []

def act (s : Client) : Act → Option Client
  | .dial k net => do
    let request ← s.pending[k]?
    let u ← Url.parse request.url
    -- http: no Host in request URL
    if u.host = [] then none
    else
      let r := dialWebhook net.dial (ascii "tcp") net.lookup (canonicalAddr u)
      return { s with dials := s.dials ++ r.2, conns := s.conns ++ opened canonicalAddr u r }
  | .post k c => do
    let request ← s.pending[k]?
    let u ← Url.parse request.url
    if c ∈ s.conns ∧ c.scheme = u.scheme ∧ c.address = canonicalAddr u then
      return { s with pending := s.pending.eraseIdx k, posts := s.posts ++ [⟨request, c⟩] }
    else none
  | .fail k => do
    let request ← s.pending[k]?
    return { s with pending := s.pending.eraseIdx k, failed := s.failed ++ [request] }

/-- A dial of a public address. -/
def ToPublic (d : Dial) : Prop :=
  ∃ ip port addr, d = Dial.to (ascii "tcp") port ip ∧ NetIP.addrFromSlice ip = some addr ∧
    Public addr.unmap

/-- Every request is in one place, and nothing leaves but over connections that were
dialed to public addresses for the request's own scheme and address. -/
structure Inv (s : Client) : Prop where
  places : (s.started : Multiset Request) = s.pending + s.posts.map Post.request + s.failed
  dials : ∀ d ∈ s.dials, ToPublic d
  conns : ∀ c ∈ s.conns, c.dial ∈ s.dials
  posts : ∀ p ∈ s.posts, p.conn ∈ s.conns ∧ ∃ u, Url.parse p.request.url = some u ∧
    p.conn.scheme = u.scheme ∧ p.conn.address = canonicalAddr u

end

variable {canonicalAddr : Url.URL → GoString} {s t : Client}

theorem inv_new : Inv canonicalAddr .new := ⟨rfl, nofun, nofun, nofun⟩

theorem inv_start (h : Inv canonicalAddr s) (rs : List Request) :
    Inv canonicalAddr (s.start rs) := by
  refine ⟨?_, h.dials, h.conns, h.posts⟩
  simp only [start, ← Multiset.coe_add, h.places]
  abel

theorem toPublic_of_dialWebhook {net : Network} {address : GoString} {d : Dial}
    (hd : d ∈ (dialWebhook net.dial (ascii "tcp") net.lookup address).2) : ToPublic d := by
  obtain ⟨host, port, addresses, -, -, ip, -, hpublic, rfl⟩ := dialWebhook_public hd
  obtain ⟨addr, haddr, hpublic⟩ := (publicWebhookIP_iff ip).mp hpublic
  exact ⟨ip, port, addr, rfl, haddr, hpublic⟩

theorem mem_opened {u : Url.URL} {c : Conn}
    {r : (Option Unit × Option (DialError GoString)) × List Dial}
    (hc : c ∈ opened canonicalAddr u r) : c.dial ∈ r.2 := by
  unfold opened at hc
  split at hc
  · rename_i hlast
    obtain rfl := List.mem_singleton.mp hc
    exact List.mem_of_getLast? hlast
  · cases hc

/-- A request leaves the ones in progress. -/
theorem coe_eraseIdx {rs : List Request} {k : ℕ} {r : Request} (h : rs[k]? = some r) :
    (rs : Multiset Request) = rs.eraseIdx k + {r} := by
  obtain ⟨hk, rfl⟩ := List.getElem?_eq_some_iff.mp h
  rw [add_comm, Multiset.singleton_add, Multiset.cons_coe]
  exact (Multiset.coe_eq_coe.mpr (List.getElem_cons_eraseIdx_perm hk)).symm

theorem inv_act {x : Act} (h : Inv canonicalAddr s) (hact : s.act canonicalAddr x = some t) :
    Inv canonicalAddr t := by
  cases x with
  | dial k net =>
    simp only [act, Option.bind_eq_bind, Option.bind_eq_some_iff] at hact
    obtain ⟨request, -, u, -, hact⟩ := hact
    split_ifs at hact
    cases hact
    refine ⟨h.places, fun d hd => ?_, fun c hc => ?_, fun p hp => ?_⟩
    · rcases List.mem_append.mp hd with hd | hd
      · exact h.dials d hd
      · exact toPublic_of_dialWebhook hd
    · rcases List.mem_append.mp hc with hc | hc
      · exact List.mem_append_left _ (h.conns c hc)
      · exact List.mem_append_right _ (mem_opened hc)
    · obtain ⟨hconn, hurl⟩ := h.posts p hp
      exact ⟨List.mem_append_left _ hconn, hurl⟩
  | post k c =>
    simp only [act, Option.bind_eq_bind, Option.bind_eq_some_iff] at hact
    obtain ⟨request, hrequest, u, hu, hact⟩ := hact
    split_ifs at hact with hconn
    cases hact
    refine ⟨?_, h.dials, h.conns, fun p hp => ?_⟩
    · rw [h.places, coe_eraseIdx hrequest]
      simp only [List.map_append, List.map_cons, List.map_nil, ← Multiset.coe_add,
        Multiset.coe_singleton]
      abel
    · rcases List.mem_append.mp hp with hp | hp
      · exact h.posts p hp
      · obtain rfl := List.mem_singleton.mp hp
        exact ⟨hconn.1, u, hu, hconn.2⟩
  | fail k =>
    simp only [act, Option.bind_eq_bind, Option.bind_eq_some_iff] at hact
    obtain ⟨request, hrequest, hact⟩ := hact
    cases hact
    refine ⟨?_, h.dials, h.conns, h.posts⟩
    rw [h.places, coe_eraseIdx hrequest]
    simp only [← Multiset.coe_add, Multiset.coe_singleton]
    abel

theorem started_act {x : Act} (hact : s.act canonicalAddr x = some t) : t.started = s.started := by
  cases x with
  | dial k net =>
    simp only [act, Option.bind_eq_bind, Option.bind_eq_some_iff] at hact
    obtain ⟨request, -, u, -, hact⟩ := hact
    split_ifs at hact
    cases hact
    rfl
  | post k c =>
    simp only [act, Option.bind_eq_bind, Option.bind_eq_some_iff] at hact
    obtain ⟨request, -, u, -, hact⟩ := hact
    split_ifs at hact
    cases hact
    rfl
  | fail k =>
    simp only [act, Option.bind_eq_bind, Option.bind_eq_some_iff] at hact
    obtain ⟨request, -, hact⟩ := hact
    cases hact
    rfl

end Client

end Patchli.Webhooks
