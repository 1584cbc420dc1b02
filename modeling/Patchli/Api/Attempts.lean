import Patchli.Api.AuthHandlers
import Patchli.Db.Refinement
import Patchli.Ownership.Expiry

/-!
# Requests whose database calls may fail

One request by itself, with any of its driver calls failing. A call that returns an
error has changed nothing, and a token pair is written only when its refresh token is
stored and covered by the claim of its node.
-/

namespace Patchli.Api

open Auth Transaction Ownership Db

section

variable (J : Jwt) (hmac : Hmac) {H : Digests} (f : Faults) (b : Time)

/-- The second component is the database connection afterwards. -/
def handleAgentLogin (x : LoginInput) (r : Request) (s : Session (sql H)) :
    Reply × Session (sql H) :=
  match beginLogin J hmac x r with
  | .error e => (.error e, s)
  | .ok (c, pair) =>
    let (out, s) := transact f b (body H c) s
    (endLogin pair out, s)

def handleAgentRefresh (x : RefreshInput) (r : Request) (s : Session (sql H)) :
    Reply × Session (sql H) :=
  match beginRefresh J x r with
  | .error e => (.error e, s)
  | .ok (c, pair) =>
    let (out, s) := transact f b (body H c) s
    (endRefresh pair out, s)

def handleRevokeEnrollment (r : Request) (s : Session (sql H)) : Reply × Session (sql H) :=
  match beginRevoke r with
  | .error e => (.error e, s)
  | .ok c =>
    let (out, s) := transact f b (body H c) s
    (endRevoke out, s)

end

variable {J : Jwt} {hmac : Hmac} {H : Digests} {f : Faults} {b : Time} {s : Session (sql H)}
  {c : Call}

theorem transact_stored (herr : (transact f b (body H c) s).1.err = none) {token : GoString}
    {expiresAt : Time}
    (hrow : ∀ a, (transact f b (body H c) s).1.value = some a →
      (c.event H a).row = some (hashToken H token, expiresAt)) :
    ∃ row ∈ (transact f b (body H c) s).2.store.tokensOf c.mac,
      row.tokenHash = hashToken H token ∧ row.expiresAt = expiresAt ∧
      ∃ e, (transact f b (body H c) s).2.store.nodeEnrollments c.mac = some e ∧
        row.expiresAt ≤ e.expiresAt := by
  rcases transact_cases (P := byNode H) c.mac f b (body H c) s with
    ⟨hne, -⟩ | ⟨a, out, hout, hstore, hc⟩
  · exact absurd herr hne
  · have hmove := body_moves hc
    have hvalue := hrow a (by rw [hout])
    obtain ⟨hmem, x, hclaim, hle⟩ := hmove.row_covered hvalue
    rw [hstore]
    obtain ⟨row, hrow, heq⟩ := mem_ledger_tokens.mp hmem
    obtain ⟨hhash, hexpires⟩ := Prod.mk.inj heq
    obtain ⟨e, he, rfl⟩ := Option.map_eq_some_iff.mp hclaim
    exact ⟨row, hrow, hhash, hexpires, e, he, hexpires ▸ hle⟩

/-- A new refresh token expires no later than a week after a later clock reading. -/
theorem generateTokenPair_expires {x : PairInput} {mac : GoString} {pair : TokenPair}
    (h : generateTokenPair J x mac = some pair) : ∃ claims,
      J.signedString claims = some pair.refreshToken ∧
      ∀ exp, numericDate claims.exp = some exp → exp ≤ x.refreshNow + refreshTokenDuration := by
  simp only [generateTokenPair, Option.bind_eq_bind, Option.bind_eq_some_iff, Option.pure_def,
    Option.some.injEq] at h
  obtain ⟨accessToken, -, refreshStr, hrefresh, rfl⟩ := h
  exact ⟨_, hrefresh, fun exp => numericDate_agentClaims⟩

/-- The refresh token of the pair is stored for the node, and the node's claim lasts at
least as long. -/
def Stored (J : Jwt) (H : Digests) (D : Tables) (mac : GoString) (p : TokenPair)
    (inOrder : Prop) : Prop :=
  ∃ row ∈ D.tokensOf mac, row.tokenHash = hashToken H p.refreshToken ∧
    (∃ e, D.nodeEnrollments mac = some e ∧ row.expiresAt ≤ e.expiresAt) ∧
    (inOrder → ∃ claims, J.signedString claims = some p.refreshToken ∧
      ∀ exp, numericDate claims.exp = some exp → exp ≤ row.expiresAt)

theorem stored_of_transact {x : PairInput} {expires : Time} {pair : TokenPair}
    (hpair : generateTokenPair J x c.mac = some pair)
    (herr : (transact f b (body H c) s).1.err = none)
    (hrow : ∀ a, (transact f b (body H c) s).1.value = some a →
      (c.event H a).row = some (hashToken H pair.refreshToken, expires + refreshTokenDuration)) :
    Stored J H (transact f b (body H c) s).2.store c.mac pair (x.refreshNow ≤ expires) := by
  obtain ⟨row, hmem, hhash, hexpires, hclaim⟩ := transact_stored herr hrow
  obtain ⟨claims, hsigned, hle⟩ := generateTokenPair_expires hpair
  refine ⟨row, hmem, hhash, hclaim, fun horder => ⟨claims, hsigned, fun exp hexp => ?_⟩⟩
  calc
    exp ≤ x.refreshNow + refreshTokenDuration := hle exp hexp
    _ ≤ expires + refreshTokenDuration := by gcongr
    _ = row.expiresAt := hexpires.symm

theorem handleAgentLogin_pair {x : LoginInput} {r : Request} {p : TokenPair}
    (h : (handleAgentLogin J hmac f b x r s).1 = .pair p) : ∃ req,
      decodeLoginRequest r.body = some req ∧
      Stored J H (handleAgentLogin J hmac f b x r s).2.store req.mac p
        (x.pair.refreshNow ≤ x.expires) := by
  unfold handleAgentLogin at h ⊢
  split at h
  · cases h
  · rename_i c pair hbegin
    obtain ⟨herr, rfl⟩ := endLogin_eq_pair h
    obtain ⟨req, t, hreq, -, -, -, -, hpair, rfl⟩ := beginLogin_eq_ok hbegin
    exact ⟨req, hreq, stored_of_transact hpair herr fun _ _ => rfl⟩

theorem handleAgentRefresh_pair {x : RefreshInput} {r : Request} {p : TokenPair}
    (h : (handleAgentRefresh J f b x r s).1 = .pair p) : ∃ req,
      decodeRefreshRequest r.body = some req ∧
      Stored J H (handleAgentRefresh J f b x r s).2.store req.mac p
        (x.pair.refreshNow ≤ x.expires) := by
  unfold handleAgentRefresh at h ⊢
  split at h
  · cases h
  · rename_i c pair hbegin
    obtain ⟨herr, hrotated, rfl⟩ := endRefresh_eq_pair h
    obtain ⟨req, claims, hreq, -, -, hpair, rfl⟩ := beginRefresh_eq_ok hbegin
    refine ⟨req, hreq, stored_of_transact hpair herr fun a ha => ?_⟩
    obtain rfl : a = .rotated true := Option.some.inj (ha.symm.trans hrotated)
    rfl

theorem transact_unchanged (herr : (transact f b (body H c) s).1.err ≠ none) :
    (transact f b (body H c) s).2.store = s.store := by
  rcases transact_cases (P := byNode H) c.mac f b (body H c) s with ⟨-, hsame⟩ | ⟨a, out, hout, -⟩
  · exact hsame
  · rw [hout] at herr
    exact absurd rfl herr

theorem handleRevokeEnrollment_unchanged {r : Request}
    (h : (handleRevokeEnrollment f b r s).1 ≠ .noContent) :
    (handleRevokeEnrollment f b r s).2.store = s.store := by
  unfold handleRevokeEnrollment at h ⊢
  split at h
  · rfl
  · apply transact_unchanged
    intro hnone
    simp [endRevoke, hnone] at h

/-- Whatever calls of the driver fail: an enrollment, rotation or revocation that returns
an error leaves the database as it was, and a login or a refresh writes a pair only when
its refresh token is stored for the node of the request and covered by a claim. A revocation
that is not answered by 204 has changed nothing. -/
theorem enrollment_all_or_nothing (J : Jwt) (hmac : Hmac) (H : Digests) (f : Faults) (b : Time)
    (s : Session (sql H)) :
    (∀ c, (transact f b (body H c) s).1.err ≠ none →
      (transact f b (body H c) s).2.store = s.store) ∧
    (∀ x r p, (handleAgentLogin J hmac f b x r s).1 = .pair p → ∃ req,
      decodeLoginRequest r.body = some req ∧
      Stored J H (handleAgentLogin J hmac f b x r s).2.store req.mac p
        (x.pair.refreshNow ≤ x.expires)) ∧
    (∀ x r p, (handleAgentRefresh J f b x r s).1 = .pair p → ∃ req,
      decodeRefreshRequest r.body = some req ∧
      Stored J H (handleAgentRefresh J f b x r s).2.store req.mac p
        (x.pair.refreshNow ≤ x.expires)) ∧
    ∀ r, (handleRevokeEnrollment f b r s).1 ≠ .noContent →
      (handleRevokeEnrollment f b r s).2.store = s.store :=
  ⟨fun _ => transact_unchanged, fun _ _ _ => handleAgentLogin_pair,
    fun _ _ _ => handleAgentRefresh_pair, fun _ => handleRevokeEnrollment_unchanged⟩

/-! ### A login -/

/-- The digests of the test tokens and grants, extended to a collision-free function, and
the lock key of node `aa`. -/
def testDigests : Digests where
  sha256 := GoString.tabulate ((testGrants.map Grant.nonce ++
    [testToken 2, testToken 4, testToken 6]).zip [[
      138, 131, 102, 95, 55, 152, 114, 127, 20, 249, 42, 208, 230, 201, 159, 218,
      176, 142, 231, 49, 214, 205, 100, 76, 19, 18, 35, 253, 47, 79, 237, 42], [
      13, 107, 161, 155, 98, 83, 28, 203, 13, 235, 136, 4, 49, 62, 202, 40,
      60, 105, 86, 15, 102, 241, 183, 184, 162, 193, 89, 42, 232, 195, 92, 107], [
      20, 229, 110, 205, 40, 230, 41, 196, 216, 226, 99, 71, 34, 223, 173, 231,
      212, 36, 181, 161, 190, 12, 94, 218, 77, 170, 59, 239, 59, 212, 57, 13], [
      244, 111, 58, 60, 20, 75, 216, 22, 59, 253, 30, 98, 163, 141, 240, 60,
      53, 230, 194, 142, 169, 164, 160, 239, 129, 252, 111, 132, 196, 169, 37, 182], [
      228, 198, 190, 47, 100, 210, 164, 175, 164, 253, 182, 50, 7, 170, 43, 145,
      97, 149, 86, 126, 65, 190, 219, 242, 190, 120, 151, 137, 216, 97, 242, 201]])
  hashtextextended _ _ := 4434922278757143110

theorem testDigests_injective : Function.Injective testDigests.sha256 :=
  GoString.tabulate_injective _

def post (fields : List (String × GoString)) : Request :=
  ⟨ascii "POST", Wire.writeJSON (.object (fields.map fun p => (ascii p.1, .string p.2)))⟩

def loginRequest (mac : GoString) (g : Grant) : Request := post [
  ("mac", mac), ("group", g.group), ("timestamp", g.timestamp), ("nonce", g.nonce),
  ("signature", generateRegistrationSignature testHmac g.group g.timestamp g.nonce)]

def refreshRequest (mac token : GoString) : Request := post [("mac", mac), ("refresh_token", token)]

/-- All clock readings are `now`; the two tokens have the given random bytes. -/
def pairInput (now : Time) (accessJti refreshJti : UInt8) : PairInput :=
  ⟨now, List.replicate 16 accessJti, now, List.replicate 16 refreshJti⟩

def loginInput (now : Time) (accessJti refreshJti : UInt8) : LoginInput :=
  ⟨now, now, now, now, pairInput now accessJti refreshJti, now⟩

def refreshInput (now : Time) (accessJti refreshJti : UInt8) : RefreshInput :=
  ⟨now, pairInput now accessJti refreshJti, now⟩

def emptySession : Session (sql testDigests) := ⟨Tables.empty, [], 0⟩

/-- Node `aa` logs in with a new grant and no call fails. -/
theorem enrollment_all_or_nothing_login : ∃ req,
    decodeLoginRequest (loginRequest (ascii "aa") testGrants[0]).body = some req ∧
    Stored testJwt testDigests (handleAgentLogin testJwt testHmac (fun _ => false) 0
      (loginInput 0 1 3) (loginRequest (ascii "aa") testGrants[0]) emptySession).2.store req.mac
      ⟨testToken 0, testToken 2⟩ ((0 : Time) ≤ 0) :=
  (enrollment_all_or_nothing testJwt testHmac testDigests (fun _ => false) 0 emptySession).2.1
    (loginInput 0 1 3) (loginRequest (ascii "aa") testGrants[0]) ⟨testToken 0, testToken 2⟩
    (by decide +kernel)

end Patchli.Api
