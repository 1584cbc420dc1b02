import Patchli.Api.Server
import Patchli.Ownership.Replay
import Patchli.Websocket.Identity

/-!
# What revocation ends

The token requests and the connections of one server under one clock. A revocation, or
the reuse of a token, ends the refresh tokens of the node. Access tokens are checked by
signature and expiry alone, so one that was issued before still opens connections until
it expires, and connections outlive it.
-/

namespace Patchli.Api

open Auth Transaction Ownership Db

/-- The two parts share the clock and the secret. No row that a heartbeat writes is read
by a token request. -/
structure System (H : Digests) where
  api : State H
  ws : Websocket.State

inductive System.Action
  | tick (t : Time)
  | api (a : Api.Action)
  | ws (a : Websocket.Action)

/-- Only `tick` moves the clocks. -/
def System.step (J : Jwt) (hmac : Hmac) {H : Digests} (s : System H) :
    System.Action → Option (System H)
  | .tick t => do
    let api ← Api.step J hmac s.api (.tick t)
    let ws ← Websocket.step J s.ws (.advance t)
    return ⟨api, ws⟩
  | .api a =>
    match a with
    | .tick _ => none
    | a => (Api.step J hmac s.api a).map fun api => { s with api := api }
  | .ws a =>
    match a with
    | .advance _ => none
    | a => (Websocket.step J s.ws a).map fun ws => { s with ws := ws }

def System.initial (H : Digests) (now : Time) (D : Tables)
    (nodes : GoString → Option Websocket.NodeRow) : System H :=
  ⟨.initial H now D, .initial now nodes⟩

variable {J : Jwt} {hmac : Hmac} {H : Digests}

/-- A revocation by an operator, or the detection of a reuse. -/
def Revokes (c : Commit (service H)) : Prop :=
  match c.call, c.result with
  | .revokeEnrollment _, _ | .rotateRefreshToken _ _ _ _, .rotated false => True
  | _, _ => False

theorem Revokes.empties {c : Commit (service H)} (h : Revokes c) : (entry H c).event.Empties := by
  obtain ⟨call, begun, committed, result⟩ := c
  cases call with
  | enrollNode => exact h.elim
  | rotateRefreshToken =>
    rcases result with _ | _ | _
    · exact h.elim
    · trivial
    · exact h.elim
  | revokeEnrollment => trivial

/-! ### Refresh tokens -/

theorem fresh_names (hsha : Function.Injective H.sha256) {now : Time} {D : Tables}
    {s : Transaction.State (service H)} (hfresh : Fresh D s.log) :
    (world s).Fresh fun t => ∃ n, t ∈ ((world (Db.initial H now D)).ledger n).names := by
  obtain ⟨hnodup, hnew⟩ := world_fresh hsha hfresh
  refine ⟨hnodup, ?_⟩
  rintro t ht ⟨n, hn⟩
  obtain ⟨r, hr, rfl⟩ := mem_ledger_names.mp hn
  exact hnew _ ht (List.mem_map_of_mem (Tables.mem_tokensOf.mp hr).1)

theorem not_redeemed_after (hsha : Function.Injective H.sha256) {now : Time} {D : Tables}
    (hdistinct : (D.refreshTokens.map RefreshToken.tokenHash).Nodup) {s : State H}
    (hinv : Inv J hmac s)
    (hreach : Ownership.Reaches (world (Db.initial H now D)) (world s.db))
    (hfresh : Fresh D s.db.log) {l₁ l₂ : List (Served H)} {y : Served H}
    (hsplit : s.served = l₁ ++ y :: l₂) (hrevokes : Revokes y.commit) {token : GoString}
    (hissued : (∃ r ∈ D.tokensOf y.commit.call.mac, r.tokenHash = hashToken H token) ∨
      ∃ z ∈ l₁, z.commit.call.mac = y.commit.call.mac ∧ stored z.commit = some token) :
    ∀ v ∈ l₂, redeemed v.commit ≠ some token := by
  have hlog : (world s.db).log = (l₁.map fun z => entry H z.commit) ++
      entry H y.commit :: l₂.map fun z => entry H z.commit := by
    simp [world, hinv.log, hsplit, Function.comp_def]
  have hissued : IssuedTo (world (Db.initial H now D)) (l₁.map fun z => entry H z.commit)
      (entry H y.commit).node (hashToken H token) := by
    rcases hissued with hissued | ⟨z, hz, hmac', hstored⟩
    · exact Or.inl (mem_ledger_names.mpr hissued)
    · refine Or.inr ⟨entry H z.commit, List.mem_map_of_mem hz, hmac', ?_⟩
      rw [entry_stored, hstored]
      rfl
  intro v hv hredeemed
  refine hreach.not_redeemed_after rfl (fresh_names hsha hfresh)
    (initial_singleUse now hdistinct).owner hlog hrevokes.empties hissued (entry H v.commit)
    (List.mem_map_of_mem hv) ?_
  rw [entry_redeemed, hredeemed]
  rfl

/-! ### Access tokens -/

/-- A handshake with a new access token is made before the token expires, for the node
that the token was made for. -/
theorem handshake_before_expiry
    (hJ : ∀ claims token, J.signedString claims = some token → J.verified token = some claims)
    {x : PairInput} {mac : GoString} {pair : TokenPair}
    (hpair : generateTokenPair J x mac = some pair) {since : Time} {nodeID : GoString}
    (h : authenticate J since (bearerPrefix ++ pair.accessToken) = some nodeID) :
    nodeID = mac ∧ since < x.accessNow + accessTokenDuration := by
  simp only [generateTokenPair, Option.bind_eq_bind, Option.bind_eq_some_iff, Option.pure_def,
    Option.some.injEq] at hpair
  obtain ⟨accessToken, haccess, refreshStr, -, rfl⟩ := hpair
  obtain ⟨token, htoken, hsubject⟩ := authenticate_eq_some h
  obtain rfl := List.append_cancel_left htoken
  obtain ⟨-, claims, hverified, hsub, -, exp, hexp, hlt⟩ := accessSubject_eq_some hsubject
  obtain rfl := Option.some.inj (hverified.symm.trans (hJ _ _ haccess))
  cases hsub
  exact ⟨rfl, hlt.trans_le (numericDate_agentClaims hexp)⟩

/-! ### Runs of both -/

structure System.Inv (J : Jwt) (hmac : Hmac) (w : World GoString GoString Time) (s : System H) :
    Prop where
  api : Api.Inv J hmac s.api
  reaches : Ownership.Reaches w (world s.api.db)
  ws : Websocket.Bound J s.ws

theorem System.inv_step {w : World GoString GoString Time} {s u : System H} {a : System.Action}
    (hinv : System.Inv J hmac w s) (h : System.step J hmac s a = some u) :
    System.Inv J hmac w u := by
  have hapi {a : Api.Action} {t : State H} (h : Api.step J hmac s.api a = some t) :
      Api.Inv J hmac t ∧ Ownership.Reaches w (world t.db) := by
    obtain ⟨b, hb⟩ := step_db h
    exact ⟨Api.inv_step hinv.api h, hinv.reaches.tail (step_refines hinv.api.guarded hb).2⟩
  cases a with
  | tick t =>
    simp only [System.step, Option.bind_eq_bind, Option.bind_eq_some_iff, Option.pure_def,
      Option.some.injEq] at h
    obtain ⟨api, ha, ws, hw, rfl⟩ := h
    exact ⟨(hapi ha).1, (hapi ha).2, Websocket.bound_step hinv.ws hw⟩
  | api a =>
    simp only [System.step] at h
    split at h
    · cases h
    · obtain ⟨api, ha, rfl⟩ := Option.map_eq_some_iff.mp h
      exact ⟨(hapi ha).1, (hapi ha).2, hinv.ws⟩
  | ws a =>
    simp only [System.step] at h
    split at h
    · cases h
    · obtain ⟨ws, hw, rfl⟩ := Option.map_eq_some_iff.mp h
      exact ⟨hinv.api, hinv.reaches, Websocket.bound_step hinv.ws hw⟩

/-- Once the tokens of a node were revoked, or a reuse was detected, no refresh of a
token issued to the node before that succeeds, and an access token issued before it opens
connections for less than an hour. A connection registered for the node whose handshake
presented such an access token was opened within that hour. -/
theorem revoked_tokens_end (hsha : Function.Injective H.sha256)
    (hJ : ∀ claims token, J.signedString claims = some token → J.verified token = some claims)
    {now : Time} {D : Tables} (hdistinct : (D.refreshTokens.map RefreshToken.tokenHash).Nodup)
    {nodes : GoString → Option Websocket.NodeRow} {as : List System.Action} {s : System H}
    (hrun : Machine.run (System.step J hmac) (.initial H now D nodes) as = some s)
    (hfresh : Fresh D s.api.db.log) {l₁ l₂ : List (Served H)} {y : Served H}
    (hsplit : s.api.served = l₁ ++ y :: l₂) (hrevokes : Revokes y.commit) :
    (∀ r ∈ D.tokensOf y.commit.call.mac, ∀ v ∈ l₂, ∀ token, redeemed v.commit = some token →
      hashToken H token ≠ r.tokenHash) ∧
    ∀ z ∈ l₁, z.commit.call.mac = y.commit.call.mac → ∀ pair, z.reply = .pair pair →
      (∀ v ∈ l₂, redeemed v.commit ≠ some pair.refreshToken) ∧
      (∀ c h, s.ws.handlers c = some h → h.authHeader = bearerPrefix ++ pair.accessToken →
        h.since < y.commit.committed + accessTokenDuration) ∧
      ∀ c, s.ws.registry.agents y.commit.call.mac = some c → ∃ h, s.ws.handlers c = some h ∧
        h.nodeID = y.commit.call.mac ∧ (h.authHeader = bearerPrefix ++ pair.accessToken →
          h.since < y.commit.committed + accessTokenDuration) := by
  have hinv : System.Inv J hmac (world (Db.initial H now D)) s :=
    Machine.run_invariant _ (fun _ _ _ => System.inv_step)
      ⟨inv_initial now D, .refl, Websocket.bound_initial now nodes⟩ hrun
  refine ⟨fun r hr v hv token hredeemed hhash => ?_, fun z hz hnode pair hreply => ?_⟩
  · exact not_redeemed_after hsha hdistinct hinv.api hinv.reaches hfresh hsplit hrevokes
      (Or.inl ⟨r, hr, hhash.symm⟩) v hv hredeemed
  have hmem : z ∈ s.api.served := by simp [hsplit, hz]
  obtain ⟨hstored, x, -, hbegun, hpair⟩ := hinv.api.written hmem hreply
  have hissued : x.accessNow ≤ y.commit.committed := by
    have hordered := hinv.api.ordered
    rw [hsplit, List.pairwise_append] at hordered
    calc
      x.accessNow ≤ z.commit.begun := hbegun
      _ ≤ z.commit.committed := (hinv.api.served z hmem).2.2.2.2.1
      _ ≤ y.commit.committed := hordered.2.2 z hz y List.mem_cons_self
  have hsince (c : Fleet.Conn) (h : Websocket.Handler) (hc : s.ws.handlers c = some h)
      (hheader : h.authHeader = bearerPrefix ++ pair.accessToken) :
      h.since < y.commit.committed + accessTokenDuration := by
    have hauth := (hinv.ws.authentic c h hc).2
    rw [hheader] at hauth
    calc
      h.since < x.accessNow + accessTokenDuration := (handshake_before_expiry hJ hpair hauth).2
      _ ≤ y.commit.committed + accessTokenDuration := by gcongr
  refine ⟨?_, hsince, fun c hc => ?_⟩
  · exact not_redeemed_after hsha hdistinct hinv.api hinv.reaches hfresh hsplit hrevokes
      (Or.inr ⟨z, hz, hnode, hstored⟩)
  · obtain ⟨h, hh, hid⟩ := hinv.ws.owner _ c hc
    exact ⟨h, hh, hid, hsince c h hh⟩

/-! ### An access token after the revocation -/

/-- Node `aa` logs in and is revoked. A minute later it connects with its access token and
sends a heartbeat. -/
private def connectedAfterRevocation : List System.Action :=
  (login 0 0 1 3 firstGrant ++ serve (.revoke 1 (post [("mac", ascii "aa")])) 1 3).map
    System.Action.api ++ [.tick minute, .ws (.handler 0 (.connect (Websocket.header 0))),
    .ws (.handler 0 (.readMessage Websocket.beat)), .ws (.handler 0 .act)]

private theorem connectedAfterRevocation_run : ∃ s z y,
    Machine.run (System.step testJwt testHmac) (.initial testDigests 0 .empty fun _ => none)
      connectedAfterRevocation = some s ∧
    s.api.served = [z, y] ∧ s.api.db.log.filterMap stored = [testToken 2] ∧
    z.reply = .pair ⟨testToken 0, testToken 2⟩ ∧ z.commit.call.mac = ascii "aa" ∧
    y.commit.call = .revokeEnrollment (ascii "aa") ∧ y.commit.committed = 0 ∧
    s.ws.registry.agents (ascii "aa") = some 0 ∧
    ∃ h, s.ws.handlers 0 = some h ∧ h.authHeader = bearerPrefix ++ testToken 0 ∧
      h.since = minute := by
  have hrun : ∃ s ∈ Machine.run (System.step testJwt testHmac)
        (.initial testDigests 0 .empty fun _ => none) connectedAfterRevocation,
      ∃ z ∈ s.api.served.head?, ∃ y ∈ s.api.served.tail.head?, s.api.served.tail.tail = [] ∧
      s.api.db.log.filterMap stored = [testToken 2] ∧
      z.reply = .pair ⟨testToken 0, testToken 2⟩ ∧ z.commit.call.mac = ascii "aa" ∧
      y.commit.call = .revokeEnrollment (ascii "aa") ∧ y.commit.committed = 0 ∧
      s.ws.registry.agents (ascii "aa") = some 0 ∧
      ∃ h ∈ s.ws.handlers 0, h.authHeader = bearerPrefix ++ testToken 0 ∧ h.since = minute := by
    decide +kernel
  obtain ⟨s, hs, z, hz, y, hy, hnil, h⟩ := hrun
  refine ⟨s, z, y, hs, ?_, h⟩
  rw [List.eq_cons_of_mem_head? hz, List.eq_cons_of_mem_head? hy, hnil]

theorem revoked_tokens_end_connected : ∃ s,
    Machine.run (System.step testJwt testHmac) (.initial testDigests 0 .empty fun _ => none)
      connectedAfterRevocation = some s ∧
    ∀ c h, s.ws.handlers c = some h → h.authHeader = bearerPrefix ++ testToken 0 →
      h.since < hour := by
  obtain ⟨s, z, y, hrun, hserved, hstored, hreply, hnode, hcall, hcommitted, -⟩ :=
    connectedAfterRevocation_run
  refine ⟨s, hrun, ?_⟩
  have hfresh : Fresh .empty s.api.db.log := ⟨by rw [hstored]; decide, by simp [Tables.empty]⟩
  have hsplit : s.api.served = [z] ++ y :: [] := hserved
  have hends := revoked_tokens_end testDigests_injective
    (fun _ _ => testJwt_correct) (D := .empty) List.nodup_nil hrun hfresh hsplit
    (by simp [Revokes, hcall])
  have hsame : z.commit.call.mac = y.commit.call.mac := by rw [hnode, hcall]; rfl
  have hsince := (hends.2 z (List.mem_singleton_self z) hsame _ hreply).2.1
  rw [hcommitted] at hsince
  exact hsince

/-- The connection is opened with the access token a minute after the revocation, and
commands for the node are written to it. -/
theorem not_revocation_complete : ∃ s z y,
    Machine.run (System.step testJwt testHmac) (.initial testDigests 0 .empty fun _ => none)
      connectedAfterRevocation = some s ∧
    s.api.served = [z, y] ∧ z.reply = .pair ⟨testToken 0, testToken 2⟩ ∧
    z.commit.call.mac = ascii "aa" ∧ y.commit.call = .revokeEnrollment (ascii "aa") ∧
    ∃ h, s.ws.handlers 0 = some h ∧ h.authHeader = bearerPrefix ++ testToken 0 ∧
      y.commit.committed < h.since ∧ s.ws.registry.agents (ascii "aa") = some 0 := by
  obtain ⟨s, z, y, hrun, hserved, -, hreply, hnode, hcall, hcommitted, hagent, h, hh, hheader,
    hsince⟩ := connectedAfterRevocation_run
  exact ⟨s, z, y, hrun, hserved, hreply, hnode, hcall, h, hh, hheader,
    by rw [hcommitted, hsince]; decide, hagent⟩

end Patchli.Api
