import Patchli.Foundation.GoString

/-!
# Agent tokens

`auth.go` and the token check of the websocket handshake. Making a signature and
checking one is the JWT library's part and stays a parameter.
-/

namespace Patchli.Auth

def accessTokenDuration : Duration := hour * 1

def refreshTokenDuration : Duration := hour * 24 * 7

def tokenAudience : GoString := ascii "patchli-agent"

def tokenTypeAccess : GoString := ascii "access"

def tokenTypeRefresh : GoString := ascii "refresh"

/-- A claim as a validator compares it: a text, or another JSON value. -/
inductive Claim
  | text (s : GoString)
  | other
  deriving DecidableEq

/-- `jwt.MapClaims`. Dates are in seconds. An audience that is neither a text nor a
list of texts counts as none, which the validators reject alike. -/
structure MapClaims where
  sub : Option Claim
  aud : List GoString
  typ : Option Claim
  jti : Option GoString
  iat : Option ℤ
  exp : Option ℤ
  nbf : Option ℤ
  deriving DecidableEq

/-- The library under the server's secret. -/
structure Jwt where
  /-- `SignedString`; `none` is an error. -/
  signedString : MapClaims → Option GoString
  /-- The claims of a text with a valid HMAC signature. -/
  verified : GoString → Option MapClaims

/-- A numeric date; zero stands for an absent one. -/
def numericDate (date : Option ℤ) : Option Time := (date.filter (· ≠ 0)).map (· * second)

/-- The options of `jwt.Parse`. -/
structure ParserOption where
  audience : Option GoString
  expirationRequired : Bool

/-- What `jwt.Parse` checks of the claims. -/
def MapClaims.validate (claims : MapClaims) (now : Time) (opts : ParserOption) : Bool :=
  (numericDate claims.exp).elim (!opts.expirationRequired) (fun exp => decide (now < exp)) &&
    (numericDate claims.nbf).all (fun nbf => decide (nbf ≤ now)) &&
    opts.audience.all fun aud => decide (aud ∈ claims.aud)

section

variable (J : Jwt)

/-- `jwt.Parse`, for HMAC signing methods only. -/
def parse (now : Time) (opts : ParserOption) (tokenStr : GoString) : Option MapClaims :=
  (J.verified tokenStr).filter fun claims => claims.validate now opts

/-- `randomHex(16)` of the given bytes. -/
def randomHex (bytes : GoString) : GoString := bytes.hexEncode

/-- The claims of a new token. -/
def agentClaims (now : Time) (jti macAddr tokenType : GoString) (lifetime : Duration) :
    MapClaims where
  sub := some (.text macAddr)
  aud := [tokenAudience]
  typ := some (.text tokenType)
  jti := some (randomHex jti)
  iat := some (now / second)
  exp := some ((now + lifetime) / second)
  nbf := none

def signAgentToken (now : Time) (jti macAddr tokenType : GoString) (lifetime : Duration) :
    Option GoString :=
  J.signedString (agentClaims now jti macAddr tokenType lifetime)

structure TokenPair where
  accessToken : GoString
  refreshToken : GoString
  deriving DecidableEq

/-- The clock readings and random bytes of one token pair. -/
structure PairInput where
  accessNow : Time
  accessJti : GoString
  refreshNow : Time
  refreshJti : GoString

def generateAgentJWT (now : Time) (jti macAddr : GoString) : Option GoString :=
  signAgentToken J now jti macAddr tokenTypeAccess accessTokenDuration

def generateTokenPair (x : PairInput) (macAddr : GoString) : Option TokenPair := do
  let accessToken ← generateAgentJWT J x.accessNow x.accessJti macAddr
  let refreshStr ← signAgentToken J x.refreshNow x.refreshJti macAddr tokenTypeRefresh
    refreshTokenDuration
  return ⟨accessToken, refreshStr⟩

def validateToken (now : Time) (tokenStr : GoString) : Option MapClaims :=
  parse J now ⟨none, false⟩ tokenStr

def hasAudience (claims : MapClaims) : Bool := tokenAudience ∈ claims.aud

/-- Tokens without a type are accepted. -/
def validateRefreshToken (now : Time) (tokenStr : GoString) : Option MapClaims :=
  (validateToken J now tokenStr).filter fun claims =>
    !(claims.typ.isSome && (claims.typ ≠ some (.text tokenTypeRefresh) || !hasAudience claims))

def bearerPrefix : GoString := ascii "Bearer "

/-- The subject of an access token, which is the node ID of the connection. -/
def accessSubject (now : Time) (tokenStr : GoString) : Option GoString :=
  match parse J now ⟨some tokenAudience, true⟩ tokenStr with
  | none => none
  | some claims =>
    if claims.typ = some (.text tokenTypeAccess) then
      match claims.sub with
      | some (.text nodeID) => if nodeID = [] then none else some nodeID
      | _ => none
    else none

/-- How `HandleWebSocket` authenticates a request. -/
def authenticate (now : Time) (authHeader : GoString) : Option GoString :=
  if bearerPrefix <+: authHeader then accessSubject J now (authHeader.drop bearerPrefix.length)
  else none

end

variable {J : Jwt}

theorem parse_eq_some {now : Time} {opts : ParserOption} {tokenStr : GoString}
    {claims : MapClaims} : parse J now opts tokenStr = some claims ↔
      J.verified tokenStr = some claims ∧ claims.validate now opts = true :=
  Option.filter_eq_some_iff

theorem accessSubject_eq_some {now : Time} {tokenStr nodeID : GoString}
    (h : accessSubject J now tokenStr = some nodeID) : nodeID ≠ [] ∧
      ∃ claims, J.verified tokenStr = some claims ∧ claims.sub = some (.text nodeID) ∧
        claims.typ = some (.text tokenTypeAccess) ∧
        ∃ exp, numericDate claims.exp = some exp ∧ now < exp := by
  unfold accessSubject at h
  split at h
  · cases h
  rename_i claims hparse
  split_ifs at h with htyp
  split at h
  · rename_i hsub
    split_ifs at h with hempty
    cases h
    obtain ⟨hverified, hvalid⟩ := parse_eq_some.mp hparse
    simp only [MapClaims.validate, Bool.and_eq_true] at hvalid
    obtain ⟨⟨hexp, -⟩, -⟩ := hvalid
    refine ⟨hempty, claims, hverified, hsub, htyp, ?_⟩
    cases hdate : numericDate claims.exp with
    | none => simp [hdate] at hexp
    | some exp => exact ⟨exp, rfl, by simpa [hdate] using hexp⟩
  · cases h

theorem authenticate_eq_some {now : Time} {authHeader nodeID : GoString}
    (h : authenticate J now authHeader = some nodeID) :
    ∃ tokenStr, authHeader = bearerPrefix ++ tokenStr ∧
      accessSubject J now tokenStr = some nodeID := by
  unfold authenticate at h
  split_ifs at h with hprefix
  obtain ⟨tokenStr, rfl⟩ := hprefix
  rw [List.drop_left] at h
  exact ⟨tokenStr, rfl, h⟩

theorem numericDate_agentClaims {now : Time} {jti macAddr tokenType : GoString}
    {lifetime : Duration} {exp : Time}
    (h : numericDate (agentClaims now jti macAddr tokenType lifetime).exp = some exp) :
    exp ≤ now + lifetime := by
  obtain ⟨date, hdate, rfl⟩ := Option.map_eq_some_iff.mp h
  obtain ⟨hdate, -⟩ := Option.filter_eq_some_iff.mp hdate
  cases hdate
  exact Int.ediv_mul_le _ (by decide)

/-- Tokens under the secret of `SetTestSecrets`. -/
def testTokens : List (MapClaims × GoString) := [
  (agentClaims 0 (List.replicate 16 1) (ascii "aa") tokenTypeAccess accessTokenDuration,
    ascii "eyJhbGciOiJIUzI1NiIsInR5cCI6IkpXVCJ9.eyJhdWQiOiJwYXRjaGxpLWFnZW50IiwiZXhwIjozNjA" ++
      ascii "wLCJpYXQiOjAsImp0aSI6IjAxMDEwMTAxMDEwMTAxMDEwMTAxMDEwMTAxMDEwMTAxIiwic3ViIjoiYWE" ++
      ascii "iLCJ0eXAiOiJhY2Nlc3MifQ.o4Qs8Zu5YegeRwIK6eiLgu54yPCzv-IXq6TUb8E35GQ"),
  (agentClaims 0 (List.replicate 16 2) (ascii "bb") tokenTypeAccess accessTokenDuration,
    ascii "eyJhbGciOiJIUzI1NiIsInR5cCI6IkpXVCJ9.eyJhdWQiOiJwYXRjaGxpLWFnZW50IiwiZXhwIjozNjA" ++
      ascii "wLCJpYXQiOjAsImp0aSI6IjAyMDIwMjAyMDIwMjAyMDIwMjAyMDIwMjAyMDIwMjAyIiwic3ViIjoiYmI" ++
      ascii "iLCJ0eXAiOiJhY2Nlc3MifQ.GqQ9fyz8LWQgbOlUp9eGBrsUYi_9IJWDcqJAPSp3wBs"),
  (agentClaims 0 (List.replicate 16 3) (ascii "aa") tokenTypeRefresh refreshTokenDuration,
    ascii "eyJhbGciOiJIUzI1NiIsInR5cCI6IkpXVCJ9.eyJhdWQiOiJwYXRjaGxpLWFnZW50IiwiZXhwIjo2MDQ" ++
      ascii "4MDAsImlhdCI6MCwianRpIjoiMDMwMzAzMDMwMzAzMDMwMzAzMDMwMzAzMDMwMzAzMDMiLCJzdWIiOiJ" ++
      ascii "hYSIsInR5cCI6InJlZnJlc2gifQ.Y1-FyZwsnboLSx5dOdLGYj2-_HfZ6hUpxethEGZ4C1w"),
  (agentClaims (60 * second) (List.replicate 16 4) (ascii "aa") tokenTypeAccess accessTokenDuration,
    ascii "eyJhbGciOiJIUzI1NiIsInR5cCI6IkpXVCJ9.eyJhdWQiOiJwYXRjaGxpLWFnZW50IiwiZXhwIjozNjY" ++
      ascii "wLCJpYXQiOjYwLCJqdGkiOiIwNDA0MDQwNDA0MDQwNDA0MDQwNDA0MDQwNDA0MDQwNCIsInN1YiI6ImF" ++
      ascii "hIiwidHlwIjoiYWNjZXNzIn0.dT7o4qYPgKGrD--zgMGD_dIYRWiYGRLeCgDcVG6fdIY"),
  (agentClaims (60 * second) (List.replicate 16 5) (ascii "aa") tokenTypeRefresh refreshTokenDuration,
    ascii "eyJhbGciOiJIUzI1NiIsInR5cCI6IkpXVCJ9.eyJhdWQiOiJwYXRjaGxpLWFnZW50IiwiZXhwIjo2MDQ" ++
      ascii "4NjAsImlhdCI6NjAsImp0aSI6IjA1MDUwNTA1MDUwNTA1MDUwNTA1MDUwNTA1MDUwNTA1Iiwic3ViIjo" ++
      ascii "iYWEiLCJ0eXAiOiJyZWZyZXNoIn0.bTJDpL1aOglRjXCzTtf2_YDlMEfWJmLO7XgPCeJrNHU"),
  (agentClaims (120 * second) (List.replicate 16 6) (ascii "aa") tokenTypeAccess accessTokenDuration,
    ascii "eyJhbGciOiJIUzI1NiIsInR5cCI6IkpXVCJ9.eyJhdWQiOiJwYXRjaGxpLWFnZW50IiwiZXhwIjozNzI" ++
      ascii "wLCJpYXQiOjEyMCwianRpIjoiMDYwNjA2MDYwNjA2MDYwNjA2MDYwNjA2MDYwNjA2MDYiLCJzdWIiOiJ" ++
      ascii "hYSIsInR5cCI6ImFjY2VzcyJ9.XWrnXN3B8snSH5zclDxILmnvJL4YI4CoPN7Cb7hVQQU"),
  (agentClaims (120 * second) (List.replicate 16 7) (ascii "aa") tokenTypeRefresh refreshTokenDuration,
    ascii "eyJhbGciOiJIUzI1NiIsInR5cCI6IkpXVCJ9.eyJhdWQiOiJwYXRjaGxpLWFnZW50IiwiZXhwIjo2MDQ" ++
      ascii "5MjAsImlhdCI6MTIwLCJqdGkiOiIwNzA3MDcwNzA3MDcwNzA3MDcwNzA3MDcwNzA3MDcwNyIsInN1YiI" ++
      ascii "6ImFhIiwidHlwIjoicmVmcmVzaCJ9.QtX8nq06TqBbIvzxT3ILMS5wpVfJ0w93nyDOgPo9BO0")]

def testToken (i : ℕ) : GoString := testTokens[i]?.elim [] Prod.snd

/-- A library that knows these tokens only. -/
def testJwt : Jwt where
  signedString claims := (testTokens.find? fun p => p.1 = claims).map Prod.snd
  verified tokenStr := (testTokens.find? fun p => p.2 = tokenStr).map Prod.fst

theorem testJwt_correct {claims : MapClaims} {token : GoString}
    (h : testJwt.signedString claims = some token) : testJwt.verified token = some claims := by
  have hnodup : (testTokens.map Prod.snd).Nodup := by decide +kernel
  obtain ⟨p, hp, rfl⟩ := Option.map_eq_some_iff.mp h
  have hmem := List.mem_of_find?_eq_some hp
  have hsome : (testTokens.find? fun q => q.2 = p.2).isSome :=
    List.find?_isSome.mpr ⟨p, hmem, by simp⟩
  obtain ⟨q, hq⟩ := Option.isSome_iff_exists.mp hsome
  have htext : q.2 = p.2 := by simpa using List.find?_some hq
  obtain rfl := List.inj_on_of_nodup_map hnodup (List.mem_of_find?_eq_some hq) hmem htext
  have hclaims : q.1 = claims := by simpa using List.find?_some hp
  simp only [testJwt, Option.map_eq_some_iff]
  exact ⟨q, hq, hclaims⟩

end Patchli.Auth
