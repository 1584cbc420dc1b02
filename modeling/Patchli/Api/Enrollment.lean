import Patchli.Api.Attempts
import Patchli.Db.Memory
import Patchli.Foundation.Calendar

/-!
# Logging in with the grant of a setup

The grant that `HandleSetup` signed, in the body of a login. It enrolls a node as long as
its timestamp, which has lost the fraction of its second, lies within five minutes of the
server's clock.
-/

namespace Patchli.Api

open Auth Transaction Db Json

/-- `json.Marshal` of a `LoginRequest`. -/
def loginFields (req : LoginRequest) : Value := .object [
  (ascii "mac", .string req.mac), (ascii "group", .string req.group),
  (ascii "timestamp", .string req.timestamp), (ascii "nonce", .string req.nonce),
  (ascii "signature", .string req.signature)]

/-- The login of a node with a grant and its signature. -/
def grantLogin (hmac : Hmac) (mac : GoString) (g : Grant) : LoginRequest where
  mac := mac
  group := g.group
  timestamp := g.timestamp
  nonce := g.nonce
  signature := generateRegistrationSignature hmac g.group g.timestamp g.nonce

def grantRequest (hmac : Hmac) (mac : GoString) (g : Grant) : Request :=
  ⟨ascii "POST", render (loginFields (grantLogin hmac mac g))⟩

/-! ### The texts of a grant -/

theorem valid_hexEncode (bytes : GoString) : Utf8.Valid bytes.hexEncode := by
  have hdigit (n : ℕ) (hn : n < 16) : GoString.hexDigit n < 0x80 := by
    interval_cases n <;> decide
  apply Utf8.valid_of_ascii
  induction bytes with
  | nil => exact fun b hb => absurd hb List.not_mem_nil
  | cons c bytes ih =>
    intro b hb
    have hc := c.toNat_lt
    rcases List.mem_cons.mp hb with rfl | hb
    · exact hdigit _ (by omega)
    rcases List.mem_cons.mp hb with rfl | hb
    · exact hdigit _ (by omega)
    · exact ih b hb

theorem valid_format (offset : ℤ) (t : Time) : Utf8.Valid (Rfc3339.format offset t) := by
  apply Utf8.valid_of_ascii
  intro b hb
  rcases Rfc3339.format_bytes offset t b hb with hdigit | hmem
  · simp only [Decimal.isDigit, Bool.and_eq_true, decide_eq_true_eq] at hdigit
    grind
  · have hall : ∀ b ∈ ascii "+-:TZ", b < 0x80 := by decide +kernel
    exact hall b hmem

theorem valid_of_isValidGroupName {group : GoString} (h : isValidGroupName group = true) :
    Utf8.Valid group := by
  simp only [isValidGroupName, Bool.and_eq_true, List.all_eq_true] at h
  refine Utf8.valid_of_ascii fun b hb => ?_
  have hclass := h.2 b hb
  grind

/-- What a setup signed, and when. -/
structure IssuedAt (offset : ℤ) (now : Time) (g : Grant) : Prop where
  group : isValidGroupName g.group = true
  timestamp : g.timestamp = Rfc3339.format offset now
  nonce : ∃ bytes : GoString, bytes ≠ [] ∧ g.nonce = bytes.hexEncode

theorem setupGrant_issuedAt {offset : ℤ} {now : Time} {bytes group : GoString} {g : Grant}
    (h : setupGrant offset now bytes group = some g) (hbytes : bytes ≠ []) :
    IssuedAt offset now g := by
  simp only [setupGrant, Option.ite_none_right_eq_some, Option.some.injEq] at h
  obtain ⟨hvalid, rfl⟩ := h
  exact ⟨hvalid, rfl, bytes, hbytes, rfl⟩

theorem decodeLoginRequest_render {req : LoginRequest} (hmac : Utf8.Valid req.mac)
    (hgroup : Utf8.Valid req.group) (htimestamp : Utf8.Valid req.timestamp)
    (hnonce : Utf8.Valid req.nonce) (hsignature : Utf8.Valid req.signature)
    (hfits : (render (loginFields req)).length ≤ maxAuthBodyBytes) :
    decodeLoginRequest (render (loginFields req)) = some req := by
  have hintegral : Integral (loginFields req) :=
    ⟨trivial, trivial, trivial, trivial, trivial, trivial⟩
  have hparse : parseFirst (render (loginFields req) ++ []) = some (decoded (loginFields req)) :=
    parseFirst_render hintegral delimited_nil
  have hfields : Wire.decodeStruct setLoginRequest ⟨[], [], [], [], []⟩
      (decoded (loginFields req)) = some ⟨Utf8.toValid req.mac, Utf8.toValid req.group, Utf8.toValid req.timestamp,
        Utf8.toValid req.nonce, Utf8.toValid req.signature⟩ := rfl
  rw [List.append_nil] at hparse
  rw [decodeLoginRequest, decodeBody, List.take_of_length_le hfits, hparse, Option.bind_some,
    hfields, Utf8.toValid_of_valid hmac, Utf8.toValid_of_valid hgroup,
    Utf8.toValid_of_valid htimestamp, Utf8.toValid_of_valid hnonce,
    Utf8.toValid_of_valid hsignature]

/-! ### The window of a login -/

variable {J : Jwt} {hmac : Hmac} {H : Digests} {x : LoginInput} {g : Grant} {mac : GoString}
  {pair : TokenPair} {offset : ℤ} {now : Time}

/-- What the two checks of the timestamp require of the clock. -/
structure InWindow (x : LoginInput) (start : Time) : Prop where
  validateSince : x.validateSince ≤ start + 10 * minute
  validateUntil : start ≤ x.validateUntil + 5 * minute
  freshSince : x.freshSince ≤ start + 5 * minute
  freshUntil : start ≤ x.freshUntil + 5 * minute

/-- When the clock does not step back, the second check is the stricter one. -/
theorem inWindow_iff {start : Time} (hclock : x.readings.Pairwise (· ≤ ·)) : InWindow x start ↔
    start ≤ x.validateUntil + 5 * minute ∧ x.freshSince ≤ start + 5 * minute := by
  have hminute : 0 < minute := by decide
  simp only [LoginInput.readings, List.pairwise_cons, List.mem_cons] at hclock
  have hfirst : x.validateSince ≤ x.freshSince := hclock.1 _ (by simp)
  have hlast : x.validateUntil ≤ x.freshUntil := hclock.2.1 _ (by simp)
  constructor
  · exact fun h => ⟨h.validateUntil, h.freshSince⟩
  · exact fun h => ⟨by linarith, h.1, h.2, by linarith⟩

theorem sub_le_iff_add {t u : Time} {d : Duration} (hlow : -2 ^ 63 ≤ d) (hhigh : d < 2 ^ 63 - 1) :
    Time.sub t u ≤ d ↔ t ≤ u + d := by
  rw [Time.sub_le_iff hlow hhigh]
  constructor <;> intro h <;> linarith

theorem validateRegistration_grant (hmac : Hmac) (sinceNow untilNow : Time) {start : Time}
    (hparse : Rfc3339.parse g.timestamp = some start) (hnonce : g.nonce ≠ []) :
    validateRegistration hmac sinceNow untilNow g.group g.timestamp g.nonce
        (generateRegistrationSignature hmac g.group g.timestamp g.nonce) = true ↔
      sinceNow ≤ start + 10 * minute ∧ start ≤ untilNow + 5 * minute := by
  have hsince : Time.sub sinceNow start ≤ 10 * minute ↔ sinceNow ≤ start + 10 * minute :=
    sub_le_iff_add (by decide) (by decide)
  have huntil : Time.sub start untilNow ≤ 5 * minute ↔ start ≤ untilNow + 5 * minute :=
    sub_le_iff_add (by decide) (by decide)
  simp [validateRegistration, hparse, hnonce, hsince, huntil]

theorem fresh_iff (x : LoginInput) (start : Time) :
    (!(decide (5 * minute < Time.sub x.freshSince start) ||
      decide (5 * minute < Time.sub start x.freshUntil))) = true ↔
      x.freshSince ≤ start + 5 * minute ∧ start ≤ x.freshUntil + 5 * minute := by
  have hsince : Time.sub x.freshSince start ≤ 5 * minute ↔ x.freshSince ≤ start + 5 * minute :=
    sub_le_iff_add (by decide) (by decide)
  have huntil : Time.sub start x.freshUntil ≤ 5 * minute ↔ start ≤ x.freshUntil + 5 * minute :=
    sub_le_iff_add (by decide) (by decide)
  simp [hsince, huntil]

/-- Within the window a login reaches the database, and otherwise it is refused. -/
theorem beginLogin_grant (hissued : IssuedAt offset now g)
    (hzone : Rfc3339.WholeMinutes offset) (hyears : Rfc3339.FourDigits offset now)
    (hmac' : validNodeID mac = true)
    (hfits : (grantRequest hmac mac g).body.length ≤ maxAuthBodyBytes)
    (hpair : generateTokenPair J x.pair mac = some pair) :
    (InWindow x (now - now % second) → beginLogin J hmac x (grantRequest hmac mac g) =
      .ok (.enrollNode mac g.nonce (now - now % second + 10 * minute) pair.refreshToken
        (x.expires + refreshTokenDuration), pair)) ∧
    (¬ InWindow x (now - now % second) → ∃ message,
      beginLogin J hmac x (grantRequest hmac mac g) = .error ⟨401, message⟩) := by
  obtain ⟨start, hstart⟩ : ∃ start, start = now - now % second := ⟨_, rfl⟩
  have hparse : Rfc3339.parse g.timestamp = some start := by
    rw [hissued.timestamp, Rfc3339.parse_format hzone hyears, hstart]
  obtain ⟨bytes, hbytes, hnonce⟩ := hissued.nonce
  have hnil : g.nonce ≠ [] := by
    rw [hnonce]
    cases bytes with
    | nil => exact absurd rfl hbytes
    | cons b bytes => exact List.cons_ne_nil _ _
  have hdecode : decodeLoginRequest (grantRequest hmac mac g).body =
      some (grantLogin hmac mac g) := by
    refine decodeLoginRequest_render (valid_of_validNodeID hmac')
      (valid_of_isValidGroupName hissued.group) ?_ ?_ (valid_hexEncode _) hfits
    · change Utf8.Valid g.timestamp
      rw [hissued.timestamp]
      exact valid_format offset now
    · change Utf8.Valid g.nonce
      rw [hnonce]
      exact valid_hexEncode bytes
  have hfilter : (some (grantLogin hmac mac g)).filter (fun req => validNodeID req.mac) =
      some (grantLogin hmac mac g) := by
    rw [Option.filter_some]
    exact if_pos hmac'
  have hvalid := validateRegistration_grant hmac x.validateSince x.validateUntil hparse hnil
  have hfresh := fresh_iff x start
  have hmethod : ¬ (grantRequest hmac mac g).method ≠ ascii "POST" := fun h => h rfl
  rw [← hstart]
  unfold beginLogin
  rw [if_neg hmethod, hdecode, hfilter]
  dsimp only [grantLogin]
  by_cases hsigned : x.validateSince ≤ start + 10 * minute ∧ start ≤ x.validateUntil + 5 * minute
  · rw [if_neg (by simp [hvalid.mpr hsigned]), hparse, Option.filter_some]
    by_cases htime : x.freshSince ≤ start + 5 * minute ∧ start ≤ x.freshUntil + 5 * minute
    · refine ⟨fun _ => ?_, fun h => absurd ⟨hsigned.1, hsigned.2, htime.1, htime.2⟩ h⟩
      rw [if_pos (hfresh.mpr htime)]
      simp only [hpair]
    · refine ⟨fun h => absurd ⟨h.freshSince, h.freshUntil⟩ htime, fun _ => ?_⟩
      rw [if_neg (mt hfresh.mp htime)]
      exact ⟨_, rfl⟩
  · refine ⟨fun h => absurd ⟨h.validateSince, h.validateUntil⟩ hsigned, fun _ => ?_⟩
    rw [if_pos (Bool.eq_false_iff.mpr (mt hvalid.mp hsigned))]
    exact ⟨_, rfl⟩

theorem endLogin_eq_pair_iff {out : Outcome Returned DbError} :
    endLogin pair out = .pair pair ↔ out.err = none := by
  constructor
  · exact fun h => (endLogin_eq_pair h).1
  · intro h
    rw [endLogin, h]

/-- The node of a valid login gets its pair when the database has neither a claim of the
node that still runs nor the nonce. -/
theorem enrollNode_pair_iff {b : Time} {nonce token : GoString} {nonceExpiresAt expiresAt : Time}
    {s : Session (sql H)} :
    endLogin pair (transact reliable b
      (body H (.enrollNode mac nonce nonceExpiresAt token expiresAt)) s).1 = .pair pair ↔
      (∀ row, s.store.nodeEnrollments mac = some row → row.expiresAt ≤ b) ∧
      ∀ e, ⟨hashToken H nonce, e⟩ ∈ s.store.registrationNonces → e < b := by
  obtain ⟨e, out, s', htransact, herr, -, hreturns⟩ :=
    enrollNode_transact b mac nonce nonceExpiresAt token expiresAt s
  have hbody : body H (.enrollNode mac nonce nonceExpiresAt token expiresAt) =
      (enrollNode H mac nonce nonceExpiresAt token expiresAt >>=
        fun r => .ret (r.map fun _ => Returned.nil)) := rfl
  rw [endLogin_eq_pair_iff, hbody, transact_map, htransact, herr]
  generalize s'.store = D' at hreturns
  cases hreturns with
  | alreadyEnrolled hclaim hlive =>
    refine iff_of_false (Option.some_ne_none _) ?_
    exact fun h => absurd (h.1 _ hclaim) (not_le.mpr hlive)
  | nonceUsed hclaim hnonce =>
    refine iff_of_false (Option.some_ne_none _) ?_
    exact fun h => Bool.false_ne_true (hnonce.fresh_iff.mpr h.2)
  | enrolled hclaim hnonce => exact iff_of_true rfl ⟨hclaim, hnonce.fresh_iff.mp rfl⟩

/-- A node enrolls with the grant of a setup exactly as long as the start of the grant's
second is not more than five minutes away, the node has no claim that still runs, and the
grant was not used. -/
theorem setup_grant_enrolls {bytes group : GoString} {b : Time} {s : Session (sql H)}
    (hsetup : setupGrant offset now bytes group = some g) (hbytes : bytes ≠ [])
    (hzone : Rfc3339.WholeMinutes offset) (hyears : Rfc3339.FourDigits offset now)
    (hnode : validNodeID mac = true)
    (hfits : (grantRequest hmac mac g).body.length ≤ maxAuthBodyBytes)
    (hpair : generateTokenPair J x.pair mac = some pair)
    (hclock : x.readings.Pairwise (· ≤ ·)) :
    (handleAgentLogin J hmac reliable b x (grantRequest hmac mac g) s).1 = .pair pair ↔
      now - now % second ≤ x.validateUntil + 5 * minute ∧
      x.freshSince ≤ now - now % second + 5 * minute ∧
      (∀ row, s.store.nodeEnrollments mac = some row → row.expiresAt ≤ b) ∧
      ∀ e, ⟨hashToken H g.nonce, e⟩ ∈ s.store.registrationNonces → e < b := by
  have hissued := setupGrant_issuedAt hsetup hbytes
  obtain ⟨haccepted, hrefused⟩ :=
    beginLogin_grant (J := J) (x := x) hissued hzone hyears hnode hfits hpair
  rw [← and_assoc, ← inWindow_iff hclock]
  unfold handleAgentLogin
  by_cases hwindow : InWindow x (now - now % second)
  · rw [haccepted hwindow]
    exact enrollNode_pair_iff.trans (by simp [hwindow])
  · obtain ⟨message, herror⟩ := hrefused hwindow
    rw [herror]
    simp [hwindow]

/-- Node `aa` logs in at once, with an empty database. -/
theorem setup_grant_enrolls_at_once : (handleAgentLogin testJwt testHmac reliable 0
    (loginInput 0 1 3) (grantRequest testHmac (ascii "aa") firstGrant) emptySession).1 =
      .pair ⟨testToken 0, testToken 2⟩ := by
  have hsetup : setupGrant 0 0 (List.replicate 16 0x11) [] = some firstGrant := by decide +kernel
  refine (setup_grant_enrolls hsetup (by decide) ⟨by decide, by decide⟩ ⟨by decide, by decide⟩
    (by decide) (by decide +kernel) (by decide +kernel) (by decide)).mpr ⟨by decide, by decide, ?_, ?_⟩
  · intro row hrow
    cases hrow
  · intro e he
    cases he

end Patchli.Api
