import Patchli.Api.Server
import Patchli.Ownership.Replay

/-!
# Reuse of refresh tokens

A refresh whose token is not stored revokes every token of the node. The server takes it
for the reuse of a token that was redeemed before; it is that exactly as long as no token
that a revocation took away, or whose row expired, is presented to a node that holds
another one.
-/

namespace Patchli.Api

open Auth Transaction Ownership Db

variable {J : Jwt} {hmac : Hmac} {H : Digests}

/-- The node holds a token that has not expired at `b`. -/
def HoldsToken (D : Tables) (mac : GoString) (b : Time) : Prop :=
  ∃ r ∈ D.tokensOf mac, b < r.expiresAt

instance (D : Tables) (mac : GoString) (b : Time) : Decidable (HoldsToken D mac b) :=
  inferInstanceAs (Decidable (∃ r ∈ _, _))

/-- An earlier rotation redeemed the token. -/
def Redeemed (s : State H) (mac token : GoString) : Prop :=
  ∃ y ∈ s.served, y.commit.call.mac = mac ∧ redeemed y.commit = some token

instance (s : State H) (mac token : GoString) : Decidable (Redeemed s mac token) :=
  inferInstanceAs (Decidable (∃ y ∈ _, _))

/-- A rotation that revokes the tokens of a node that holds one was presented with a
redeemed token. -/
def ReuseIsReal (s : State H) : Action → Prop
  | .finish i =>
    match s.committing i with
    | some ⟨_, _, ⟨.rotateRefreshToken mac old _ _, b, _, .rotated false⟩⟩ =>
      HoldsToken s.db.store mac b → Redeemed s mac old
    | _ => True
  | _ => True

instance (s : State H) (a : Action) : Decidable (ReuseIsReal s a) := by
  unfold ReuseIsReal
  split
  · split <;> infer_instance
  · infer_instance

/-- A rotation for a node that holds a token was presented with a redeemed token, or with
one that the node has got, that has not expired, and since when the node's tokens were
not revoked. -/
def PresentsCurrent (now : Time) (D : Tables) (s : State H) : Action → Prop
  | .finish i =>
    match s.committing i with
    | some ⟨_, _, ⟨.rotateRefreshToken mac old _ _, b, _, _⟩⟩ =>
      HoldsToken s.db.store mac b → Redeemed s mac old ∨
        World.Current (world (Db.initial H now D)) (world s.db) mac b (hashToken H old)
    | _ => True
  | _ => True

variable {s : State H} {i : ℕ} {y : Served H} {mac old new token : GoString} {e b : Time}

theorem Inv.completes (hinv : Inv J hmac s) (h : s.committing i = some y) : ∃ out,
    Completes (byNode H) y.commit.call.mac y.commit.begun s.db.store [] (body H y.commit.call) out
      (.ok y.commit.result) := by
  simp only [State.committing] at h
  split at h <;> cases h
  rename_i p c b ws a hp ht
  exact ⟨ws, (hinv.guarded i _ ht).completes rfl⟩

theorem rotated_of_completes {D : Tables} {out : List Write} {a : Returned}
    (h : Completes (byNode H) mac b D [] (body H (.rotateRefreshToken mac old new e)) out (.ok a)) :
    ∃ ok, a = .rotated ok := by
  obtain ⟨ws, r, -, hret⟩ := completes_bind.mp h
  obtain ⟨-, ha⟩ := completes_ret.mp hret
  cases r with
  | error => cases ha
  | ok ok =>
    cases ha
    exact ⟨ok, rfl⟩

theorem not_redeemed_iff (hsha : Function.Injective H.sha256) (hinv : Inv J hmac s) :
    ¬ Redeemed s mac token ↔ (world s.db).Unredeemed mac (hashToken H token) := by
  have hlog : (world s.db).log = s.served.map fun y => entry H y.commit := by
    simp [world, hinv.log, Function.comp_def]
  simp only [Redeemed, World.Unredeemed, hlog, List.forall_mem_map, entry_redeemed, not_exists,
    not_and]
  refine forall₃_congr fun y _ _ => not_congr ?_
  simp [(hashToken_injective H hsha).eq_iff]

theorem reuse_iff (hsha : Function.Injective H.sha256) {now : Time} {D : Tables}
    (hinv : Inv J hmac s)
    (hreach : Ownership.Reaches (world (Db.initial H now D)) (world s.db)) (a : Action) :
    ReuseIsReal s a ↔ PresentsCurrent now D s a := by
  cases a with
  | finish i =>
    simp only [ReuseIsReal, PresentsCurrent]
    rcases hc : s.committing i with _ | ⟨j, p, c, b, t, a⟩
    · rfl
    obtain ⟨out, hcompletes⟩ := hinv.completes hc
    cases c with
    | rotateRefreshToken mac old new e =>
      obtain ⟨ok, rfl⟩ := rotated_of_completes hcompletes
      have hmove := body_moves hcompletes
      cases ok with
      | true =>
        -- the token was redeemable, so it is current
        simp only [true_iff]
        exact fun _ => Or.inr (hreach.current rfl hmove.redeemable)
      | false =>
        refine ⟨fun h hholds => Or.inl (h hholds), fun h hholds => ?_⟩
        by_contra hredeemed
        have hcurrent := (h hholds).resolve_left hredeemed
        have hunredeemed := (not_redeemed_iff hsha hinv).mp hredeemed
        exact hmove.unredeemable (hreach.redeemable rfl hcurrent hunredeemed)
    | enrollNode | revokeEnrollment => rfl
  | tick | login | refresh | revoke | exec | abort => rfl

/-- In every run, rotations revoke the tokens of a node that holds one only for a token
that was redeemed, if and only if no other token is presented that is not current. -/
theorem reuse_is_real (hsha : Function.Injective H.sha256) (J : Jwt) (hmac : Hmac) (now : Time)
    (D : Tables) (as : List Action) :
    Machine.Meets (step J hmac) ReuseIsReal (State.initial H now D) as ↔
      Machine.Meets (step J hmac) (PresentsCurrent now D) (State.initial H now D) as := by
  refine Machine.meets_congr (step J hmac) (I := fun s => Inv J hmac s ∧
    Ownership.Reaches (world (Db.initial H now D)) (world s.db)) ?_ ?_ ⟨inv_initial now D, .refl⟩
  · rintro s a t ⟨hinv, hreach⟩ hstep
    obtain ⟨b, hb⟩ := step_db hstep
    exact ⟨inv_step hinv hstep, hreach.tail (step_refines hinv.guarded hb).2⟩
  · rintro s a ⟨hinv, hreach⟩
    exact reuse_iff hsha hinv hreach a

/-! ### A token of an earlier enrollment -/

/-- Node `aa` logs in and presents its token twice. -/
private def presentedTwice : List Action :=
  login 0 0 1 3 firstGrant ++ .tick minute ::
    serve (.refresh 1 (refreshInput minute 4 5) (refreshRequest (ascii "aa") (testToken 2))) 1 5 ++
    .tick (2 * minute) ::
    serve (.refresh 2 (refreshInput (2 * minute) 6 7)
      (refreshRequest (ascii "aa") (testToken 2))) 2 4

/-- Node `aa` logs in, is revoked, and logs in again. Then the first token is presented,
which was never redeemed. -/
private def presentedAfterRevocation : List Action :=
  login 0 0 1 3 firstGrant ++ serve (.revoke 1 (post [("mac", ascii "aa")])) 1 3 ++
    .tick minute :: login 2 minute 4 5 secondGrant ++
    .tick (2 * minute) ::
    serve (.refresh 3 (refreshInput (2 * minute) 6 7)
      (refreshRequest (ascii "aa") (testToken 2))) 3 4

private theorem presented_meets :
    Machine.Meets (step testJwt testHmac) ReuseIsReal (State.initial testDigests 0 .empty)
      presentedTwice ∧
    ¬ Machine.Meets (step testJwt testHmac) ReuseIsReal (State.initial testDigests 0 .empty)
      presentedAfterRevocation := by
  decide +kernel

theorem reuse_is_real_presentedTwice : Machine.Meets (step testJwt testHmac)
    (PresentsCurrent 0 .empty) (State.initial testDigests 0 .empty) presentedTwice :=
  (reuse_is_real testDigests_injective testJwt testHmac 0 .empty presentedTwice).mp
    presented_meets.1

theorem not_reuse_is_real : ¬ Machine.Meets (step testJwt testHmac) ReuseIsReal
    (State.initial testDigests 0 .empty) presentedAfterRevocation :=
  presented_meets.2

end Patchli.Api
