import Patchli.Api.Revocation

/-!
# What a token is good for

An access token opens connections for its node until the second in which it expires, and
is never taken for a refresh token. A refresh token never opens a connection.
-/

namespace Patchli.Auth

/-- The whole second in which a token expires. -/
def tokenExpiry (now : Time) (lifetime : Duration) : Time := (now + lifetime) / second * second

variable {J : Jwt} {now t : Time} {jti macAddr tokenType token : GoString} {lifetime : Duration}
  {opts : ParserOption} {claims : MapClaims}

theorem validate_agentClaims (hnow : 0 ≤ now) (hlifetime : second ≤ lifetime)
    (haudience : ∀ aud ∈ opts.audience, aud = tokenAudience) :
    (agentClaims now jti macAddr tokenType lifetime).validate t opts =
      decide (t < tokenExpiry now lifetime) := by
  have hone : 1 ≤ (now + lifetime) / second := by
    rw [Int.le_ediv_iff_mul_le (by decide)]
    linarith
  have hdate : numericDate (agentClaims now jti macAddr tokenType lifetime).exp =
      some (tokenExpiry now lifetime) := by
    have hne : (now + lifetime) / second ≠ 0 := (zero_lt_one.trans_le hone).ne'
    simp [numericDate, agentClaims, Option.filter, hne, tokenExpiry]
  have haud : (opts.audience.all fun aud => decide
      (aud ∈ (agentClaims now jti macAddr tokenType lifetime).aud)) = true := by
    cases hopts : opts.audience with
    | none => rfl
    | some aud => simp [agentClaims, haudience aud hopts]
  rw [MapClaims.validate, hdate, haud]
  simp [agentClaims, numericDate]

theorem parse_signed
    (hverified : J.verified token = some (agentClaims now jti macAddr tokenType lifetime))
    (hnow : 0 ≤ now) (hlifetime : second ≤ lifetime)
    (haudience : ∀ aud ∈ opts.audience, aud = tokenAudience) :
    parse J t opts token = if t < tokenExpiry now lifetime then
      some (agentClaims now jti macAddr tokenType lifetime) else none := by
  rw [parse, hverified]
  simp [Option.filter, validate_agentClaims hnow hlifetime haudience]

theorem authenticate_bearer (J : Jwt) (t : Time) (token : GoString) :
    authenticate J t (bearerPrefix ++ token) = accessSubject J t token := by
  rw [authenticate, if_pos (List.prefix_append _ _), List.drop_left]

theorem accessSubject_access
    (hverified : J.verified token =
      some (agentClaims now jti macAddr tokenTypeAccess accessTokenDuration)) (hnow : 0 ≤ now) :
    accessSubject J t token =
      if t < tokenExpiry now accessTokenDuration ∧ macAddr ≠ [] then some macAddr else none := by
  rw [accessSubject, parse_signed hverified hnow (by decide) (by simp)]
  by_cases ht : t < tokenExpiry now accessTokenDuration
  · by_cases hempty : macAddr = [] <;> simp [ht, hempty, agentClaims]
  · simp [ht]

theorem accessSubject_refresh
    (hverified : J.verified token =
      some (agentClaims now jti macAddr tokenTypeRefresh lifetime)) :
    accessSubject J t token = none := by
  have hkind : tokenTypeRefresh ≠ tokenTypeAccess := by decide
  unfold accessSubject
  split
  · rfl
  · rename_i claims hparse
    obtain ⟨hclaims, -⟩ := parse_eq_some.mp hparse
    obtain rfl := Option.some.inj (hverified.symm.trans hclaims)
    simp [agentClaims, hkind]

theorem validateRefreshToken_access
    (hverified : J.verified token =
      some (agentClaims now jti macAddr tokenTypeAccess lifetime)) :
    validateRefreshToken J t token = none := by
  have hkind : tokenTypeAccess ≠ tokenTypeRefresh := by decide
  rw [validateRefreshToken, Option.filter_eq_none_iff]
  intro claims hparse
  obtain ⟨hclaims, -⟩ := parse_eq_some.mp hparse
  obtain rfl := Option.some.inj (hverified.symm.trans hclaims)
  simp [agentClaims, hkind]

theorem validateRefreshToken_refresh
    (hverified : J.verified token =
      some (agentClaims now jti macAddr tokenTypeRefresh refreshTokenDuration)) (hnow : 0 ≤ now) :
    validateRefreshToken J t token = if t < tokenExpiry now refreshTokenDuration then
      some (agentClaims now jti macAddr tokenTypeRefresh refreshTokenDuration) else none := by
  rw [validateRefreshToken, validateToken, parse_signed hverified hnow (by decide) (by simp)]
  by_cases ht : t < tokenExpiry now refreshTokenDuration <;>
    simp [ht, Option.filter, hasAudience, agentClaims]

end Patchli.Auth

namespace Patchli.Api

open Auth Transaction Ownership Db

variable {J : Jwt} {hmac : Hmac} {H : Digests}

theorem verified_of_pair
    (hJ : ∀ claims token, J.signedString claims = some token → J.verified token = some claims)
    {x : PairInput} {mac : GoString} {pair : TokenPair}
    (hpair : generateTokenPair J x mac = some pair) :
    J.verified pair.accessToken =
        some (agentClaims x.accessNow x.accessJti mac tokenTypeAccess accessTokenDuration) ∧
      J.verified pair.refreshToken =
        some (agentClaims x.refreshNow x.refreshJti mac tokenTypeRefresh refreshTokenDuration) := by
  simp only [generateTokenPair, Option.bind_eq_bind, Option.bind_eq_some_iff, Option.pure_def,
    Option.some.injEq] at hpair
  obtain ⟨accessToken, haccess, refreshStr, hrefresh, rfl⟩ := hpair
  exact ⟨hJ _ _ haccess, hJ _ _ hrefresh⟩

/-- A token that is presented for rotation was valid as a refresh token of the node. -/
theorem presented_valid {s : State H} (hinv : Api.Inv J hmac s) {y : Served H} (hy : y ∈ s.served)
    {mac token : GoString} (hpresents : Presents y.commit mac token) :
    ∃ t claims, validateRefreshToken J t token = some claims ∧ claims.sub = some (.text mac) := by
  obtain ⟨-, -, hbegan, -⟩ := hinv.served y hy
  obtain ⟨i, p, c, b, t, a⟩ := y
  obtain ⟨new, e, rfl⟩ := hpresents
  cases p with
  | login x pair =>
    obtain ⟨r, hr⟩ := hbegan
    obtain ⟨req, t', -, -, -, -, -, -, hc⟩ := beginLogin_eq_ok hr
    cases hc
  | refresh x pair =>
    obtain ⟨r, hr⟩ := hbegan
    obtain ⟨req, claims, -, hclaims, hsub, -, hc⟩ := beginRefresh_eq_ok hr
    cases hc
    exact ⟨x.validate, claims, hclaims, hsub⟩
  | revoke =>
    obtain ⟨r, hr⟩ := hbegan
    obtain ⟨mac', -, -, hc⟩ := beginRevoke_eq_ok hr
    cases hc

/-- In every run each token of a pair that was handed out keeps to its purpose. A handshake
with the access token succeeds exactly until the token expires and is one of its node, and
no rotation is ever attempted with it. No handshake with the refresh token succeeds; a
refresh takes it exactly until it expires, and only its own node's rotations present it. -/
theorem tokens_keep_purpose
    (hJ : ∀ claims token, J.signedString claims = some token → J.verified token = some claims)
    {now : Time} {D : Tables} {nodes : GoString → Option Websocket.NodeRow}
    {as : List System.Action} {s : System H}
    (hrun : Machine.run (System.step J hmac) (.initial H now D nodes) as = some s)
    {z : Served H} (hz : z ∈ s.api.served) {pair : TokenPair} (hreply : z.reply = .pair pair)
    {x : PairInput} (hmade : z.pending.made = some (x, pair)) (haccess : 0 ≤ x.accessNow)
    (hrefresh : 0 ≤ x.refreshNow) :
    let mac := z.commit.call.mac
    ((∀ t, authenticate J t (bearerPrefix ++ pair.accessToken) =
        if t < tokenExpiry x.accessNow accessTokenDuration ∧ mac ≠ [] then some mac else none) ∧
      (∀ t, authenticate J t (bearerPrefix ++ pair.refreshToken) = none) ∧
      (∀ t, validateRefreshToken J t pair.accessToken = none) ∧
      ∀ t, (validateRefreshToken J t pair.refreshToken).isSome =
        decide (t < tokenExpiry x.refreshNow refreshTokenDuration)) ∧
    (∀ c h, s.ws.handlers c = some h →
      (h.authHeader = bearerPrefix ++ pair.accessToken →
        h.nodeID = mac ∧ h.since < tokenExpiry x.accessNow accessTokenDuration) ∧
      h.authHeader ≠ bearerPrefix ++ pair.refreshToken) ∧
    ∀ y ∈ s.api.served, ∀ m, ¬ Presents y.commit m pair.accessToken ∧
      (Presents y.commit m pair.refreshToken → m = mac) := by
  intro mac
  have hinv : System.Inv J hmac (world (Db.initial H now D)) s :=
    Machine.run_invariant _ (fun _ _ _ => System.inv_step)
      ⟨inv_initial now D, .refl, Websocket.bound_initial now nodes⟩ hrun
  obtain ⟨-, x', hmade', -, hpair⟩ := hinv.api.written hz hreply
  obtain rfl : x = x' := congrArg Prod.fst (Option.some.inj (hmade.symm.trans hmade'))
  obtain ⟨hverified, hverifiedRefresh⟩ := verified_of_pair hJ hpair
  have hopens (t : Time) : authenticate J t (bearerPrefix ++ pair.accessToken) =
      if t < tokenExpiry x.accessNow accessTokenDuration ∧ mac ≠ [] then some mac else none := by
    rw [authenticate_bearer]
    exact accessSubject_access hverified haccess
  have hnever (t : Time) : authenticate J t (bearerPrefix ++ pair.refreshToken) = none := by
    rw [authenticate_bearer]
    exact accessSubject_refresh hverifiedRefresh
  have htaken (t : Time) := validateRefreshToken_refresh (t := t) hverifiedRefresh hrefresh
  refine ⟨⟨hopens, hnever, fun t => validateRefreshToken_access hverified, fun t => ?_⟩,
    fun c h hc => ⟨fun hheader => ?_, fun hheader => ?_⟩, fun y hy m => ⟨fun hpresents => ?_,
      fun hpresents => ?_⟩⟩
  · rw [htaken]
    split_ifs with ht <;> simp [ht]
  · have hauth := (hinv.ws.authentic c h hc).2
    rw [hheader, hopens] at hauth
    split_ifs at hauth with hopen
    exact ⟨(Option.some.inj hauth).symm, hopen.1⟩
  · have hauth := (hinv.ws.authentic c h hc).2
    rw [hheader, hnever] at hauth
    cases hauth
  · obtain ⟨t, claims, hclaims, -⟩ := presented_valid hinv.api hy hpresents
    rw [validateRefreshToken_access hverified] at hclaims
    cases hclaims
  · obtain ⟨t, claims, hclaims, hsub⟩ := presented_valid hinv.api hy hpresents
    rw [htaken] at hclaims
    split_ifs at hclaims
    cases hclaims
    cases hsub
    rfl

/-- Node `aa` logs in and connects. -/
private def loginAndConnect : List System.Action :=
  (login 0 0 1 3 firstGrant).map System.Action.api ++
    [.ws (.handler 0 (.connect (Websocket.header 0)))]

theorem tokens_keep_purpose_login :
    ∃ s, Machine.run (System.step testJwt testHmac) (.initial testDigests 0 .empty fun _ => none)
        loginAndConnect = some s ∧ (s.ws.handlers 0).isSome ∧
      ∀ c h, s.ws.handlers c = some h → h.authHeader ≠ bearerPrefix ++ testToken 2 := by
  have hrun : ∃ s ∈ Machine.run (System.step testJwt testHmac)
        (.initial testDigests 0 .empty fun _ => none) loginAndConnect,
      (s.ws.handlers 0).isSome ∧ ∃ z ∈ s.api.served.head?,
      z.reply = .pair ⟨testToken 0, testToken 2⟩ ∧ ∃ p ∈ z.pending.made,
      p.2 = ⟨testToken 0, testToken 2⟩ ∧ 0 ≤ p.1.accessNow ∧ 0 ≤ p.1.refreshNow := by
    decide +kernel
  obtain ⟨s, hs, hconnected, z, hz, hreply, ⟨x, pair⟩, hmade, rfl, haccess, hrefresh⟩ := hrun
  have hkeep := tokens_keep_purpose (fun _ _ => testJwt_correct) hs (List.mem_of_mem_head? hz)
    hreply hmade haccess hrefresh
  exact ⟨s, hs, hconnected, fun c h hc => (hkeep.2.1 c h hc).2⟩

end Patchli.Api
