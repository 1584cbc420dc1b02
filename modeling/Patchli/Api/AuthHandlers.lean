import Patchli.Auth.Registration
import Patchli.Command.Wire
import Patchli.Db.Transactions
import Patchli.Foundation.Attempt

/-!
# Login, refresh and revocation

The handlers of `auth_handlers.go`. Each is cut at its one database call: what it does
before leads to an error or to the call and the token pair it made, and what it does
after depends on the outcome of the call.
-/

namespace Patchli.Api

open Auth Json GoString Transaction

structure Request where
  method : GoString
  body : GoString

structure Response where
  statusCode : ℕ
  body : GoString
  deriving DecidableEq

/-- `http.Error` -/
structure HttpError where
  code : ℕ
  message : GoString
  deriving DecidableEq

/-- What a handler writes: an error text, a token pair, or a status alone. -/
inductive Reply
  | error (e : HttpError)
  | pair (p : TokenPair)
  | noContent
  deriving DecidableEq

def encodePair (p : TokenPair) : GoString := Wire.writeJSON (.object [
  (ascii "access_token", .string p.accessToken), (ascii "refresh_token", .string p.refreshToken)])

def Reply.response : Reply → Response
  | .error e => ⟨e.code, e.message ++ ascii "\n"⟩
  | .pair p => ⟨200, encodePair p⟩
  | .noContent => ⟨204, []⟩

/-! ### Requests -/

def maxAuthBodyBytes : ℕ := 2 ^ 16

/-- Decode the first value of a body that is read up to the cap. -/
def decodeBody {α : Type} (set : α → GoString → Value → Option α) (zero : α) (body : GoString) :
    Option α :=
  (parseFirst (body.take maxAuthBodyBytes)).bind (Wire.decodeStruct set zero)

structure LoginRequest where
  mac : GoString
  group : GoString
  timestamp : GoString
  nonce : GoString
  signature : GoString

def setLoginRequest (req : LoginRequest) (key : GoString) (v : Value) : Option LoginRequest :=
  if key.equalFold (ascii "mac") then
    (Wire.decodeString req.mac v).map fun s => { req with mac := s }
  else if key.equalFold (ascii "group") then
    (Wire.decodeString req.group v).map fun s => { req with group := s }
  else if key.equalFold (ascii "timestamp") then
    (Wire.decodeString req.timestamp v).map fun s => { req with timestamp := s }
  else if key.equalFold (ascii "nonce") then
    (Wire.decodeString req.nonce v).map fun s => { req with nonce := s }
  else if key.equalFold (ascii "signature") then
    (Wire.decodeString req.signature v).map fun s => { req with signature := s }
  else some req

def decodeLoginRequest (body : GoString) : Option LoginRequest :=
  decodeBody setLoginRequest ⟨[], [], [], [], []⟩ body

structure RefreshRequest where
  mac : GoString
  refreshToken : GoString

def setRefreshRequest (req : RefreshRequest) (key : GoString) (v : Value) : Option RefreshRequest :=
  if key.equalFold (ascii "mac") then
    (Wire.decodeString req.mac v).map fun s => { req with mac := s }
  else if key.equalFold (ascii "refresh_token") then
    (Wire.decodeString req.refreshToken v).map fun s => { req with refreshToken := s }
  else some req

def decodeRefreshRequest (body : GoString) : Option RefreshRequest :=
  decodeBody setRefreshRequest ⟨[], []⟩ body

/-- `RevokeRequest` has the one field. -/
def decodeRevokeRequest (body : GoString) : Option GoString :=
  decodeBody (fun mac key v =>
    if key.equalFold (ascii "mac") then Wire.decodeString mac v else some mac) [] body

/-- `^[A-Za-z0-9:._-]{1,50}$` -/
def validNodeID (mac : GoString) : Bool :=
  1 ≤ mac.length && mac.length ≤ 50 && mac.all fun b =>
    0x41 ≤ b && b ≤ 0x5A || 0x61 ≤ b && b ≤ 0x7A || 0x30 ≤ b && b ≤ 0x39 ||
      b = 0x3A || b = 0x2E || b = 0x5F || b = 0x2D

theorem valid_of_validNodeID {mac : GoString} (h : validNodeID mac = true) : Utf8.Valid mac := by
  simp only [validNodeID, Bool.and_eq_true, List.all_eq_true] at h
  refine Utf8.valid_of_ascii fun b hb => ?_
  have hclass := h.2 b hb
  grind

/-! ### Before the database call -/

/-- The clock readings of a login, in the order in which they are made, and its random
bytes. -/
structure LoginInput where
  validateSince : Time
  validateUntil : Time
  freshSince : Time
  freshUntil : Time
  pair : PairInput
  expires : Time

def LoginInput.readings (x : LoginInput) : List Time :=
  [x.validateSince, x.validateUntil, x.freshSince, x.freshUntil, x.pair.accessNow,
    x.pair.refreshNow, x.expires]

/-- The clock readings of a refresh and its random bytes. -/
structure RefreshInput where
  validate : Time
  pair : PairInput
  expires : Time

def RefreshInput.readings (x : RefreshInput) : List Time :=
  [x.validate, x.pair.accessNow, x.pair.refreshNow, x.expires]

def invalidBody : HttpError := ⟨400, ascii "Invalid request body"⟩

def methodNotAllowed : HttpError := ⟨405, ascii "Method not allowed"⟩

section

variable (J : Jwt) (hmac : Hmac)

/-- `HandleAgentLogin` up to `EnrollNode`. -/
def beginLogin (x : LoginInput) (r : Request) : Except HttpError (Db.Call × TokenPair) :=
  if r.method ≠ ascii "POST" then .error methodNotAllowed
  else
    match (decodeLoginRequest r.body).filter fun req => validNodeID req.mac with
    | none => .error invalidBody
    | some req =>
      if validateRegistration hmac x.validateSince x.validateUntil req.group req.timestamp
          req.nonce req.signature = false then
        .error ⟨401, ascii "Invalid registration signature"⟩
      else
        match (Rfc3339.parse req.timestamp).filter fun t =>
            !(decide (5 * minute < Time.sub x.freshSince t) ||
              decide (5 * minute < Time.sub t x.freshUntil)) with
        | none => .error ⟨401, ascii "Stale or invalid timestamp"⟩
        | some t =>
          match generateTokenPair J x.pair req.mac with
          | none => .error ⟨500, ascii "Failed to generate tokens"⟩
          | some pair => .ok (.enrollNode req.mac req.nonce (t + 10 * minute) pair.refreshToken
              (x.expires + refreshTokenDuration), pair)

/-- `HandleAgentRefresh` up to `RotateRefreshToken`. -/
def beginRefresh (x : RefreshInput) (r : Request) : Except HttpError (Db.Call × TokenPair) :=
  if r.method ≠ ascii "POST" then .error methodNotAllowed
  else
    match decodeRefreshRequest r.body with
    | none => .error invalidBody
    | some req =>
      match (validateRefreshToken J x.validate req.refreshToken).filter fun claims =>
          claims.sub = some (.text req.mac) with
      | none => .error ⟨401, ascii "Invalid refresh token payload"⟩
      | some _ =>
        match generateTokenPair J x.pair req.mac with
        | none => .error ⟨500, ascii "Failed to generate new tokens"⟩
        | some pair => .ok (.rotateRefreshToken req.mac req.refreshToken pair.refreshToken
            (x.expires + refreshTokenDuration), pair)

end

/-- `HandleRevokeEnrollment` up to `RevokeEnrollment`. -/
def beginRevoke (r : Request) : Except HttpError Db.Call :=
  if r.method ≠ ascii "POST" then .error methodNotAllowed
  else
    match (decodeRevokeRequest r.body).filter validNodeID with
    | none => .error invalidBody
    | some mac => .ok (.revokeEnrollment mac)

/-! ### After the database call -/

def endLogin (pair : TokenPair) (out : Outcome Db.Returned Db.DbError) : Reply :=
  match out.err with
  | some (.service .alreadyEnrolled) => .error ⟨409, ascii "Node is already enrolled"⟩
  | some (.service .nonceUsed) => .error ⟨401, ascii "Registration signature already used"⟩
  | some .driver => .error ⟨500, ascii "Failed to record enrollment"⟩
  | none => .pair pair

/-- The error is looked at first: a commit can fail after `rotated` was assigned. -/
def endRefresh (pair : TokenPair) (out : Outcome Db.Returned Db.DbError) : Reply :=
  match out.err with
  | some _ => .error ⟨500, ascii "Failed to rotate refresh token"⟩
  | none =>
    let rotated := out.value = some (.rotated true)
    if rotated then .pair pair else .error ⟨401, ascii "Invalid or expired refresh token"⟩

def endRevoke (out : Outcome Db.Returned Db.DbError) : Reply :=
  match out.err with
  | some _ => .error ⟨500, ascii "Failed to revoke enrollment"⟩
  | none => .noContent

/-! ### What a call comes from -/

variable {J : Jwt} {hmac : Hmac} {r : Request} {c : Db.Call} {pair : TokenPair}

/-- A login enrolls the node of its request until a week after its last clock reading.
Its material was signed, and its timestamp lies within five minutes of the reading. -/
theorem beginLogin_eq_ok {x : LoginInput} (h : beginLogin J hmac x r = .ok (c, pair)) :
    ∃ req t, decodeLoginRequest r.body = some req ∧ validNodeID req.mac = true ∧
      validateRegistration hmac x.validateSince x.validateUntil req.group req.timestamp
        req.nonce req.signature = true ∧
      Rfc3339.parse req.timestamp = some t ∧ x.freshSince - t ≤ 5 * minute ∧
      generateTokenPair J x.pair req.mac = some pair ∧
      c = .enrollNode req.mac req.nonce (t + 10 * minute) pair.refreshToken
        (x.expires + refreshTokenDuration) := by
  unfold beginLogin at h
  split_ifs at h
  split at h
  · cases h
  rename_i req hreq
  obtain ⟨hreq, hmac'⟩ := Option.filter_eq_some_iff.mp hreq
  split_ifs at h with hvalid
  split at h
  · cases h
  rename_i t ht
  obtain ⟨ht, hfresh⟩ := Option.filter_eq_some_iff.mp ht
  split at h
  · cases h
  rename_i pair' hpair
  cases h
  refine ⟨req, t, hreq, hmac', by simpa using hvalid, ht, ?_, hpair, rfl⟩
  simp only [Bool.not_eq_true', Bool.or_eq_false_iff, decide_eq_false_iff_not, not_lt] at hfresh
  exact (Time.sub_le_iff (by decide) (by decide)).mp hfresh.1

theorem beginRefresh_eq_ok {x : RefreshInput} (h : beginRefresh J x r = .ok (c, pair)) :
    ∃ req claims, decodeRefreshRequest r.body = some req ∧
      validateRefreshToken J x.validate req.refreshToken = some claims ∧
      claims.sub = some (.text req.mac) ∧ generateTokenPair J x.pair req.mac = some pair ∧
      c = .rotateRefreshToken req.mac req.refreshToken pair.refreshToken
        (x.expires + refreshTokenDuration) := by
  unfold beginRefresh at h
  split_ifs at h
  split at h
  · cases h
  rename_i req hreq
  split at h
  · cases h
  rename_i claims hclaims
  obtain ⟨hclaims, hsub⟩ := Option.filter_eq_some_iff.mp hclaims
  split at h
  · cases h
  rename_i pair' hpair
  cases h
  exact ⟨req, claims, hreq, hclaims, by simpa using hsub, hpair, rfl⟩

theorem beginRevoke_eq_ok (h : beginRevoke r = .ok c) : ∃ mac, validNodeID mac = true ∧
    decodeRevokeRequest r.body = some mac ∧ c = .revokeEnrollment mac := by
  unfold beginRevoke at h
  split_ifs at h
  split at h
  · cases h
  rename_i mac hmac'
  obtain ⟨hmac', hvalid⟩ := Option.filter_eq_some_iff.mp hmac'
  cases h
  exact ⟨mac, hvalid, hmac', rfl⟩

theorem endLogin_eq_pair {out : Outcome Db.Returned Db.DbError} {p : TokenPair}
    (h : endLogin pair out = .pair p) : out.err = none ∧ p = pair := by
  unfold endLogin at h
  split at h <;> cases h
  exact ⟨‹_›, rfl⟩

theorem endRefresh_eq_pair {out : Outcome Db.Returned Db.DbError} {p : TokenPair}
    (h : endRefresh pair out = .pair p) :
    out.err = none ∧ out.value = some (.rotated true) ∧ p = pair := by
  unfold endRefresh at h
  split at h
  · cases h
  · dsimp only at h
    split_ifs at h with hrotated
    cases h
    exact ⟨‹_›, hrotated, rfl⟩

end Patchli.Api
