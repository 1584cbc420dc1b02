import Patchli.Foundation.Url

/-!
# The scheme behind a proxy

`proxy.go`, and what depends on the scheme: the origin check of the WebSocket endpoint and
the base URL of the setup scripts. A proxy with an IPv6 address is never recognised.
-/

namespace Patchli.Proxy

open GoString NetIP

structure Env where
  trustedProxy : GoString
  baseURL : GoString

/-- What is read of a request. A header that is missing reads as the empty string. -/
structure Request where
  remoteAddr : GoString
  forwardedProto : GoString
  tls : Bool
  host : GoString
  origin : GoString

def isTrusted (env : Env) (remoteAddr : GoString) : Bool :=
  if env.trustedProxy = [] then false
  else
    -- Strip port from remoteAddr if present
    let host := ((cutLast 0x3A remoteAddr).map Prod.fst).getD remoteAddr
    host = env.trustedProxy

def scheme (env : Env) (r : Request) : GoString :=
  if r.forwardedProto ≠ [] ∧ isTrusted env r.remoteAddr then
    if toLower r.forwardedProto = ascii "https" then ascii "https" else ascii "http"
  else if r.tls then ascii "https"
  else ascii "http"

/-- `CheckOrigin` of the upgrader. -/
def checkOrigin (env : Env) (r : Request) : Bool :=
  let expectedOrigin := scheme env r ++ ascii "://" ++ r.host
  if r.origin ≠ [] ∧ r.origin ≠ expectedOrigin then false else true

/-! ### The base URL -/

inductive BaseURLError
  /-- `invalid base URL` -/
  | invalid
  /-- `base URL must use HTTPS for non-loopback hosts` -/
  | insecure
  deriving DecidableEq

/-- `(:[0-9]{1,5})?$` -/
def validPort : GoString → Bool
  | [] => true
  | c :: port =>
    c = 0x3A && port.all Decimal.isDigit && decide (1 ≤ port.length ∧ port.length ≤ 5)

/-- `validHostRegex`, where brackets hold the bytes of an IPv6 address. -/
def validHost (host : GoString) : Bool :=
  let isName (b : UInt8) : Bool := Url.isLetter b || Decimal.isDigit b || b = 0x2E || b = 0x2D
  if host.head? = some 0x5B then
    host.tail.takeWhile isAddrByte ≠ [] &&
      match host.tail.dropWhile isAddrByte with
      | c :: port => c = 0x5D && validPort port
      | [] => false
  else host.takeWhile isName ≠ [] && validPort (host.dropWhile isName)

def isLoopbackHost (host : GoString) : Bool :=
  equalFold host (ascii "localhost") || ((parseIP host).map Addr.isLoopback).getD false

def resolveBaseURL (env : Env) (r : Request) : Except BaseURLError GoString :=
  if env.baseURL = [] ∧ !validHost r.host then .error .invalid
  else
    let baseURL := if env.baseURL = [] then scheme env r ++ ascii "://" ++ r.host else env.baseURL
    match Url.parse baseURL with
    | none => .error .invalid
    | some parsedURL =>
      if parsedURL.scheme ≠ ascii "http" ∧ parsedURL.scheme ≠ ascii "https" ∨
          parsedURL.host = [] then
        .error .invalid
      -- Generated install commands pipe the script into a privileged shell
      else if parsedURL.scheme = ascii "http" ∧ !isLoopbackHost parsedURL.hostname then
        .error .insecure
      else .ok baseURL

example : resolveBaseURL ⟨[], ascii "http://[::1]:8080"⟩ ⟨[], [], false, [], []⟩ =
      .ok (ascii "http://[::1]:8080") ∧
    resolveBaseURL ⟨ascii "192.0.2.1", []⟩
        ⟨ascii "192.0.2.1:1234", ascii "HTTPS", false, ascii "controller.example", []⟩ =
      .ok (ascii "https://controller.example") ∧
    resolveBaseURL ⟨ascii "192.0.2.1", []⟩
        ⟨ascii "192.0.2.2:1234", ascii "https", false, ascii "controller.example", []⟩ =
      .error .insecure := by
  decide +kernel

/-! ### Trust -/

section

variable {env : Env} {r : Request} {p q : GoString} {a : Addr} {zone zone' : GoString}

theorem scheme_trusted (h : isTrusted env r.remoteAddr = true) (hproto : r.forwardedProto ≠ []) :
    scheme env r =
      if toLower r.forwardedProto = ascii "https" then ascii "https" else ascii "http" := by
  simp [scheme, h, hproto]

theorem scheme_untrusted (h : isTrusted env r.remoteAddr = false) :
    scheme env r = if r.tls then ascii "https" else ascii "http" := by
  simp [scheme, h]

theorem isTrusted_join {host port : GoString} (hport : 0x3A ∉ port) (hne : env.trustedProxy ≠ []) :
    isTrusted env (host ++ 0x3A :: port) = decide (host = env.trustedProxy) := by
  simp [isTrusted, cutLast_append hport, hne]

theorem colon_not_mem_formatNat (n : ℕ) : 0x3A ∉ Decimal.formatNat n := by
  intro hmem
  exact absurd (Decimal.formatNat_digits n _ hmem) (by decide)

/-- An address is trusted if it is the text of an IPv4 proxy: brackets make a host differ
from every address. -/
theorem isTrusted_joinHostPort {b : Addr} (hp : parseAddr env.trustedProxy = some (b, zone'))
    (hq : parseAddr q = some (a, zone)) (port : ℕ) :
    isTrusted env (joinHostPort q (Decimal.formatNat port)) =
      decide (q = env.trustedProxy ∧ a.is6 = false) := by
  have hport := colon_not_mem_formatNat port
  obtain ⟨c, hhead, hbyte⟩ := head_of_parseAddr hp
  have hne : env.trustedProxy ≠ [] := by
    intro hnil
    rw [hnil] at hhead
    cases hhead
  have hbracket : ascii "[" ++ q ++ ascii "]" ≠ env.trustedProxy := by
    intro heq
    rw [← heq] at hhead
    cases hhead
    exact absurd hbyte (by decide)
  have hfamily := colon_mem_iff hq
  unfold joinHostPort
  split
  · rename_i hcolon
    have heq : ascii "[" ++ q ++ ascii "]:" ++ Decimal.formatNat port =
        ascii "[" ++ q ++ ascii "]" ++ 0x3A :: Decimal.formatNat port := by
      simp [ascii]
    rw [heq, isTrusted_join hport hne, decide_eq_false hbracket, hfamily.mp hcolon]
    simp
  · rename_i hcolon
    have hsmall : a.is6 = false := by simpa using mt hfamily.mpr hcolon
    have heq : q ++ ascii ":" ++ Decimal.formatNat port = q ++ 0x3A :: Decimal.formatNat port := by
      simp [ascii]
    rw [heq, isTrusted_join hport hne]
    simp [hsmall]

end

/-- `https` in capital or small letters. -/
def NamesHttps (proto : GoString) : Prop := proto.map lowerByte = ascii "https"

instance (proto : GoString) : Decidable (NamesHttps proto) :=
  inferInstanceAs (Decidable (_ = _))

/-- The scheme is the one the header names. -/
def Honoured (env : Env) (r : Request) : Prop :=
  r.forwardedProto ≠ [] →
    scheme env r = if NamesHttps r.forwardedProto then ascii "https" else ascii "http"

def HeaderIgnored (env : Env) (r : Request) : Prop :=
  ∀ proto : GoString, let r' := { r with forwardedProto := proto }
    scheme env r' = scheme env r ∧ checkOrigin env r' = checkOrigin env r ∧
      resolveBaseURL env r' = resolveBaseURL env r

theorem headerIgnored_of_untrusted {env : Env} {r : Request}
    (h : isTrusted env r.remoteAddr = false) : HeaderIgnored env r := by
  intro proto r'
  have hscheme : scheme env r' = scheme env r := by
    rw [scheme_untrusted h, scheme_untrusted (r := r') h]
  refine ⟨hscheme, ?_, ?_⟩
  · simp only [checkOrigin, hscheme]
    rfl
  · simp only [resolveBaseURL, hscheme]
    rfl

theorem toLower_https (proto : GoString) :
    toLower proto = ascii "https" ↔ NamesHttps proto :=
  toLower_eq_iff (by decide +kernel)

theorem honoured_trusted {env : Env} {r : Request} (h : isTrusted env r.remoteAddr = true) :
    Honoured env r := by
  intro hproto
  simp only [scheme_trusted h hproto, toLower_https]

theorem honoured_untrusted {env : Env} {r : Request} (h : isTrusted env r.remoteAddr = false) :
    Honoured env r ↔
      r.forwardedProto = [] ∨ (r.tls = true ↔ NamesHttps r.forwardedProto) := by
  have hdiffer : ascii "http" ≠ ascii "https" := by decide
  unfold Honoured
  rw [scheme_untrusted h]
  by_cases htls : r.tls = true <;> by_cases hnames : NamesHttps r.forwardedProto <;>
    simp [htls, hnames, hdiffer, hdiffer.symm, or_comm]

/-- The header of a proxy is honoured if its address is an IPv4 address, and that of others is
ignored. -/
theorem honoured_iff {env : Env} {a : Addr} {zone : GoString}
    (hp : parseAddr env.trustedProxy = some (a, zone)) (port : ℕ) (r : Request) :
    (r.remoteAddr = joinHostPort env.trustedProxy (Decimal.formatNat port) →
      (Honoured env r ↔
        a.is6 = false ∨ r.forwardedProto = [] ∨ (r.tls = true ↔ NamesHttps r.forwardedProto))) ∧
    ∀ q, (parseAddr q).isSome → q ≠ env.trustedProxy →
      r.remoteAddr = joinHostPort q (Decimal.formatNat port) → HeaderIgnored env r := by
  constructor
  · intro haddr
    have htrusted := isTrusted_joinHostPort hp hp port
    rw [← haddr] at htrusted
    by_cases hfamily : a.is6 = false
    · have hhonoured := honoured_trusted (by simpa [hfamily] using htrusted)
      simp [hfamily, hhonoured]
    · rw [honoured_untrusted (by simpa [hfamily] using htrusted)]
      simp [hfamily]
  · intro q hq hne haddr
    obtain ⟨⟨b, zone'⟩, hq⟩ := Option.isSome_iff_exists.mp hq
    apply headerIgnored_of_untrusted
    rw [haddr, isTrusted_joinHostPort hp hq]
    simp [hne]

/-- `::1` in front of the server. -/
def loopbackProxy : Env := ⟨ascii "::1", []⟩

/-- `[::1]:1234` forwards a request that came in over HTTPS. -/
def forwarded : Request :=
  ⟨joinHostPort (ascii "::1") (Decimal.formatNat 1234), ascii "https", false, ascii "c.example", []⟩

/-- The header of that proxy is lost, that of `10.0.0.1` would be honoured, and a header that
does not come from the proxy changes nothing. -/
theorem honoured_iff_loopback : ¬ Honoured loopbackProxy forwarded ∧
    Honoured ⟨ascii "10.0.0.1", []⟩
      { forwarded with remoteAddr := joinHostPort (ascii "10.0.0.1") (Decimal.formatNat 80) } ∧
    HeaderIgnored loopbackProxy
      { forwarded with remoteAddr := joinHostPort (ascii "10.0.0.1") (Decimal.formatNat 80) } := by
  have hproxy : parseAddr loopbackProxy.trustedProxy =
      some (v6 [0, 0, 0, 0, 0, 0, 0, 1], []) := by
    decide +kernel
  have hproxy4 : parseAddr (ascii "10.0.0.1") = some (v4 10 0 0 1, []) := by decide +kernel
  refine ⟨fun h => ?_, ?_, ?_⟩
  · exact absurd (((honoured_iff hproxy 1234 forwarded).1 rfl).mp h) (by decide +kernel)
  · exact ((honoured_iff hproxy4 80 _).1 rfl).mpr (Or.inl rfl)
  · refine (honoured_iff hproxy 80 _).2 (ascii "10.0.0.1") ?_ (by decide) rfl
    rw [hproxy4]
    rfl

/-- The header of the proxy is lost. -/
theorem not_honoured : ¬∀ (env : Env) (port : ℕ) (r : Request),
    (parseAddr env.trustedProxy).isSome →
    r.remoteAddr = joinHostPort env.trustedProxy (Decimal.formatNat port) → Honoured env r := by
  intro h
  have hscheme := h loopbackProxy 1234 forwarded (by decide +kernel) rfl (by decide)
  exact absurd hscheme (by decide +kernel)

end Patchli.Proxy
