import Patchli.Api.Server
import Patchli.Db.Memory
import Patchli.Db.Nonces

/-!
# Registration grants

A grant is signed once and may be presented any number of times, by any nodes. Its nonce
is kept for ten minutes after its timestamp, which is longer than a login that passed the
freshness check may take to consume it. So one login at most enrolls a node with it.
-/

namespace Patchli.Api

open Auth Transaction Db

/-- The grants that setups handed out, each with random bytes of its own. -/
structure Grants where
  all : List Grant
  setup : ∀ g ∈ all, ∃ offset now bytes group, setupGrant offset now bytes group = some g
  distinct : (all.map Grant.nonce).Nodup

/-- A login whose signature verifies presents the text of a grant. -/
def Signed (hmac : Hmac) (grants : Grants) (r : Request) : Prop :=
  ∀ req ∈ decodeLoginRequest r.body,
    req.signature = generateRegistrationSignature hmac req.group req.timestamp req.nonce →
    ∃ g ∈ grants.all, registrationMessage req.group req.timestamp req.nonce = g.message

instance (hmac : Hmac) (grants : Grants) (r : Request) : Decidable (Signed hmac grants r) :=
  inferInstanceAs (Decidable (∀ req ∈ decodeLoginRequest r.body, _ → ∃ g ∈ grants.all, _))

/-- The nonce is presented with the text of a grant, and kept until then. -/
def Grants.Expires (grants : Grants) (nonce : GoString) (e : Time) : Prop :=
  ∃ g ∈ grants.all, ∃ group timestamp t, registrationMessage group timestamp nonce = g.message ∧
    Rfc3339.parse timestamp = some t ∧ e = t + 10 * minute

theorem Grants.wellFormed (grants : Grants) {g : Grant} (hg : g ∈ grants.all) : g.WellFormed := by
  obtain ⟨offset, now, bytes, group, hsetup⟩ := grants.setup g hg
  exact setupGrant_wellFormed hsetup

/-- However it is presented, a nonce has one expiry. -/
theorem Grants.expires_unique (grants : Grants) {nonce : GoString} {e e' : Time}
    (h : grants.Expires nonce e) (h' : grants.Expires nonce e') : e = e' := by
  obtain ⟨g, hg, group, timestamp, t, hmessage, ht, rfl⟩ := h
  obtain ⟨g', hg', group', timestamp', t', hmessage', ht', rfl⟩ := h'
  have hnonce := nonce_eq_of_presented (grants.wellFormed hg) (grants.wellFormed hg')
    hmessage hmessage'
  obtain rfl := List.inj_on_of_nodup_map grants.distinct hg hg' hnonce
  obtain rfl := timestamp_eq_of_presented (grants.wellFormed hg) ht ht' hmessage hmessage'
  rw [ht] at ht'
  rw [Option.some.inj ht']

theorem signature_of_valid {hmac : Hmac} {sinceNow untilNow : Time}
    {group timestamp nonce signature : GoString}
    (h : validateRegistration hmac sinceNow untilNow group timestamp nonce signature = true) :
    signature = generateRegistrationSignature hmac group timestamp nonce := by
  simp only [validateRegistration, Bool.and_eq_true, decide_eq_true_eq] at h
  exact h.1.2

variable {J : Jwt} {hmac : Hmac} {H : Digests} {grants : Grants} {x : LoginInput} {r : Request}
  {c : Call} {pair : TokenPair} {nonce : GoString} {e : Time}

theorem beginLogin_expires (h : beginLogin J hmac x r = .ok (c, pair))
    (hsigned : Signed hmac grants r) (hc : c.nonce = some (nonce, e)) :
    grants.Expires nonce e := by
  obtain ⟨req, t, hreq, -, hvalid, ht, -, -, rfl⟩ := beginLogin_eq_ok h
  cases hc
  obtain ⟨g, hg, hmessage⟩ := hsigned req hreq (signature_of_valid hvalid)
  exact ⟨g, hg, req.group, req.timestamp, t, hmessage, ht, rfl⟩

theorem beginLogin_keeps (h : beginLogin J hmac x r = .ok (c, pair))
    (hc : c.nonce = some (nonce, e)) : x.freshSince + 5 * minute ≤ e := by
  obtain ⟨req, t, -, -, -, -, hfresh, -, rfl⟩ := beginLogin_eq_ok h
  cases hc
  linarith

/-! ### With a database -/

/-- The nonce is consumed less than five minutes after the freshness check. -/
def ConsumesInTime (s : State H) : Action → Prop
  | .exec i =>
    match s.requests i, s.db.txs i with
    | some (.login x _), some ⟨_, _, _, .stmt (.insertNonce _ _) _⟩ =>
      s.db.now < x.freshSince + 5 * minute
    | _, _ => True
  | _ => True

instance (s : State H) (a : Action) : Decidable (ConsumesInTime s a) := by
  unfold ConsumesInTime
  split
  · split <;> infer_instance
  · infer_instance

def Action.Signed (hmac : Hmac) (grants : Grants) : Action → Prop
  | .login _ _ r => Api.Signed hmac grants r
  | _ => True

instance (hmac : Hmac) (grants : Grants) (a : Action) : Decidable (a.Signed hmac grants) := by
  unfold Action.Signed
  split <;> infer_instance

theorem inTime_of_step {s : State H} {a : Action} (hinv : Inv J hmac s)
    (hnonces : NonceInv grants.Expires s.db) (hsigned : a.Signed hmac grants)
    (htime : ConsumesInTime s a) {b : Transaction.Action (service H)}
    (hb : a.onDb J hmac H = some b) : InTime grants.Expires s.db b := by
  cases a with
  | login i x r =>
    simp only [Action.onDb] at hb
    split at hb <;> cases hb
    rename_i c pair hok
    exact fun nonce e hc => beginLogin_expires hok hsigned hc
  | refresh i x r =>
    simp only [Action.onDb] at hb
    split at hb <;> cases hb
    rename_i c pair hok
    obtain ⟨req, claims, -, -, -, -, rfl⟩ := beginRefresh_eq_ok hok
    rintro nonce e ⟨⟩
  | revoke i r =>
    simp only [Action.onDb] at hb
    split at hb <;> cases hb
    rename_i c hok
    obtain ⟨mac, -, -, rfl⟩ := beginRevoke_eq_ok hok
    rintro nonce e ⟨⟩
  | exec i =>
    cases hb
    rintro ⟨c, b, ws, prog⟩ hash e next ht rfl
    obtain ⟨nonce, hc, -⟩ := (hnonces.txs i _ ht).own.1
    obtain ⟨p, hp, hbegan, -⟩ := hinv.begun i _ ht
    cases p with
    | login x pair =>
      obtain ⟨r, hr⟩ := hbegan
      simp only [ConsumesInTime, hp, ht] at htime
      exact htime.le.trans (beginLogin_keeps hr hc)
    | refresh x pair =>
      obtain ⟨r, hr⟩ := hbegan
      obtain ⟨req, claims, -, -, -, -, rfl⟩ := beginRefresh_eq_ok hr
      cases hc
    | revoke =>
      obtain ⟨r, hr⟩ := hbegan
      obtain ⟨mac, -, -, rfl⟩ := beginRevoke_eq_ok hr
      cases hc
  | tick | abort | finish =>
    cases hb
    trivial

/-! ### Without a database -/

/-- A server whose store is in memory. `enrolled` lists the nonces of the logins that
enrolled a node. -/
structure MemoryState where
  now : Time
  memory : Memory
  enrolled : List GoString

/-- A login or a revocation holds the mutex of the claims. -/
inductive MemoryAction
  | tick (t : Time)
  /-- `consumeNow` is the reading at which the nonce is consumed. -/
  | login (x : LoginInput) (r : Request) (consumeNow : Time)
  | revoke (r : Request)

def memoryStep (J : Jwt) (hmac : Hmac) (H : Digests) (s : MemoryState) :
    MemoryAction → Option MemoryState
  | .tick t => if s.now ≤ t then some { s with now := t } else none
  | .login x r consumeNow =>
    match beginLogin J hmac x r with
    | .ok (.enrollNode mac nonce nonceExpiresAt _ expiresAt, _) =>
      if (x.readings ++ [s.now, consumeNow]).Pairwise (· ≤ ·) then
        match s.memory.enrollNode H s.now consumeNow mac nonce nonceExpiresAt expiresAt with
        | (none, m) => some ⟨consumeNow, m, s.enrolled ++ [nonce]⟩
        | (some _, m) => some ⟨consumeNow, m, s.enrolled⟩
      else none
    | _ => none
  | .revoke r =>
    match beginRevoke r with
    | .ok (.revokeEnrollment mac) => some { s with memory := s.memory.revokeEnrollment mac }
    | _ => none

def MemoryAction.Signed (hmac : Hmac) (grants : Grants) : MemoryAction → Prop
  | .login _ r _ => Api.Signed hmac grants r
  | _ => True

/-- The nonce is consumed less than five minutes after the freshness check. -/
def MemoryAction.InTime : MemoryAction → Prop
  | .login x _ consumeNow => consumeNow < x.freshSince + 5 * minute
  | _ => True

/-- Nonces that enrolled a node are kept through their expiry. -/
structure MemoryInv (H : Digests) (grants : Grants) (s : MemoryState) : Prop where
  kept : ∀ nonce ∈ s.enrolled, ∃ e, grants.Expires nonce e ∧
    (s.now ≤ e → s.memory.nonces (hashToken H nonce) = some e)
  once : s.enrolled.Nodup

/-- Enrolling forgets no nonce that has not expired, and consumes one that is not there. -/
theorem enrollNode_nonces {m m' : Memory} {now consumeNow : Time} {mac nonce : GoString}
    {ne expires : Time} {err : Option DbError}
    (h : m.enrollNode H now consumeNow mac nonce ne expires = (err, m')) :
    (∀ hash e, consumeNow ≤ e → m.nonces hash = some e → m'.nonces hash = some e) ∧
      (err = none → (∀ e, m.nonces (hashToken H nonce) = some e → e < consumeNow) ∧
        m'.nonces (hashToken H nonce) = some ne) := by
  simp only [Memory.enrollNode] at h
  split at h
  · cases h
    exact ⟨fun _ _ _ hkept => hkept, by rintro ⟨⟩⟩
  simp only [Memory.consumeRegistrationNonce] at h
  split at h
  · rename_i hconsume
    split at hconsume <;> cases hconsume
    cases h
    refine ⟨fun hash e hle hkept => ?_, by rintro ⟨⟩⟩
    simpa using ⟨hkept, hle⟩
  · rename_i hconsume
    split at hconsume <;> cases hconsume
    rename_i hnone
    cases h
    have hlapsed : ∀ e, m.nonces (hashToken H nonce) = some e → e < consumeNow := by
      intro e he
      by_contra hle
      rw [Option.eq_none_iff_forall_ne_some] at hnone
      exact hnone e (Memory.prune_eq_some.mpr ⟨he, by simpa using hle⟩)
    refine ⟨fun hash e hle hkept => ?_, fun _ => ⟨hlapsed, by simp⟩⟩
    have hne : hash ≠ hashToken H nonce := by
      rintro rfl
      exact absurd (hlapsed e hkept) (not_lt.mpr hle)
    simpa [hne] using ⟨hkept, hle⟩

theorem memoryInv_step {s u : MemoryState} {a : MemoryAction} (hinv : MemoryInv H grants s)
    (hsigned : a.Signed hmac grants) (htime : a.InTime)
    (hstep : memoryStep J hmac H s a = some u) : MemoryInv H grants u := by
  cases a with
  | tick t =>
    simp only [memoryStep, Option.ite_none_right_eq_some, Option.some.injEq] at hstep
    obtain ⟨hle, rfl⟩ := hstep
    refine ⟨fun nonce hn => ?_, hinv.once⟩
    obtain ⟨e, hexpires, hkept⟩ := hinv.kept nonce hn
    exact ⟨e, hexpires, fun hlt => hkept (hle.trans hlt)⟩
  | revoke r =>
    simp only [memoryStep] at hstep
    split at hstep <;> cases hstep
    exact ⟨hinv.kept, hinv.once⟩
  | login x r consumeNow =>
    simp only [memoryStep] at hstep
    split at hstep
    · rename_i mac nonce ne tok expires pair hok
      split_ifs at hstep with hordered
      have hle : s.now ≤ consumeNow :=
        List.pairwise_pair.mp (List.pairwise_append.mp hordered).2.1
      have hkept {m' : Memory} {err : Option DbError} (h : s.memory.enrollNode H s.now consumeNow
          mac nonce ne expires = (err, m')) (k : GoString) (hk : k ∈ s.enrolled) :
          ∃ e, grants.Expires k e ∧ (consumeNow ≤ e → m'.nonces (hashToken H k) = some e) := by
        obtain ⟨e, hexpires, hkept⟩ := hinv.kept k hk
        exact ⟨e, hexpires, fun hlt => (enrollNode_nonces h).1 _ e hlt (hkept (hle.trans hlt))⟩
      split at hstep <;> cases hstep
      · rename_i m henroll
        obtain ⟨hnew, hstored⟩ := (enrollNode_nonces henroll).2 rfl
        have hexpires := beginLogin_expires hok hsigned rfl
        refine ⟨fun k hk => ?_, ?_⟩
        · rcases List.mem_append.mp hk with hk | hk
          · exact hkept henroll k hk
          · obtain rfl := List.mem_singleton.mp hk
            exact ⟨ne, hexpires, fun _ => hstored⟩
        · refine hinv.once.append (List.nodup_singleton _)
            (List.disjoint_singleton.mpr fun hk => ?_)
          -- the nonce would still be there
          obtain ⟨e, hexpires', hthere⟩ := hinv.kept nonce hk
          obtain rfl := grants.expires_unique hexpires hexpires'
          have hlt : consumeNow < ne := htime.trans_le (beginLogin_keeps hok rfl)
          exact absurd (hnew ne (hthere (hle.trans hlt.le))) (not_lt.mpr hlt.le)
      · rename_i m henroll
        exact ⟨hkept henroll, hinv.once⟩
    · cases hstep

/-- At most one of the logins that present a grant's nonce ever enrolls a node, in every
run of the requests, with and without a database: for every nonce one committed call. -/
theorem grant_enrolls_once (grants : Grants) (J : Jwt) (hmac : Hmac) (H : Digests) (now : Time) :
    (∀ D as s, (∀ a ∈ as, Action.Signed hmac grants a) →
      Machine.Meets (step J hmac) ConsumesInTime (State.initial H now D) as →
      Machine.run (step J hmac) (State.initial H now D) as = some s → (consumed s.db.log).Nodup) ∧
    ∀ m as s, (∀ a ∈ as, MemoryAction.Signed hmac grants a) → (∀ a ∈ as, MemoryAction.InTime a) →
      Machine.run (memoryStep J hmac H) ⟨now, m, []⟩ as = some s → s.enrolled.Nodup := by
  refine ⟨fun D as s hsigned htime hrun => ?_, fun m as s hsigned htime hrun => ?_⟩
  · have hmeets := (Machine.meets_of_forall (step J hmac)
      (C := fun (_ : State H) a => Action.Signed hmac grants a)
      fun a ha _ => hsigned a ha).and _ htime
    have hinv : Inv J hmac s ∧ NonceInv grants.Expires s.db := by
      refine Machine.run_invariant_of_meets (step J hmac) (I := fun s => Inv J hmac s ∧
        NonceInv grants.Expires s.db) ?_ ⟨inv_initial now D, nonceInv_initial now D⟩ hmeets hrun
      rintro s a t ⟨hinv, hnonces⟩ ⟨hsigned, htime⟩ hstep
      obtain ⟨b, hb, hdb⟩ := step_onDb hstep
      exact ⟨inv_step hinv hstep, nonceInv_step (fun _ _ _ => grants.expires_unique) hnonces
        (inTime_of_step hinv hnonces hsigned htime hb) hdb⟩
    exact hinv.2.once
  · have hmeets : Machine.Meets (memoryStep J hmac H)
        (fun _ a => MemoryAction.Signed hmac grants a ∧ MemoryAction.InTime a) ⟨now, m, []⟩ as :=
      Machine.meets_of_forall _ fun a ha _ => ⟨hsigned a ha, htime a ha⟩
    have hinit : MemoryInv H grants ⟨now, m, []⟩ := ⟨by simp, List.nodup_nil⟩
    have hinv : MemoryInv H grants s :=
      Machine.run_invariant_of_meets (memoryStep J hmac H) (I := MemoryInv H grants)
        (fun s a t hinv hmeets hstep => memoryInv_step hinv hmeets.1 hmeets.2 hstep)
        hinit hmeets hrun
    exact hinv.once

def testIssued : Grants where
  all := testGrants
  setup := by
    intro g hg
    rcases List.mem_cons.mp hg with rfl | hg
    · exact ⟨0, 0, List.replicate 16 0x11, [], by decide +kernel⟩
    · obtain rfl := List.mem_singleton.mp hg
      exact ⟨0, minute, List.replicate 16 0x22, [], by decide +kernel⟩
  distinct := by decide +kernel

/-- Node `aa` logs in and is revoked. A minute later the same grant is presented again. -/
private def grantReplayed : List Action :=
  login 0 0 1 3 firstGrant ++ serve (.revoke 1 (post [("mac", ascii "aa")])) 1 3 ++
    .tick minute ::
    serve (.login 2 (loginInput minute 4 5) (loginRequest (ascii "aa") firstGrant)) 2 5

theorem grant_enrolls_once_replayed : ∃ s, Machine.run (step testJwt testHmac)
    (State.initial testDigests 0 .empty) grantReplayed = some s ∧ (consumed s.db.log).Nodup := by
  obtain ⟨s, hs⟩ := Option.isSome_iff_exists.mp (show (Machine.run (step testJwt testHmac)
    (State.initial testDigests 0 .empty) grantReplayed).isSome = true by decide +kernel)
  exact ⟨s, hs, (grant_enrolls_once testIssued testJwt testHmac testDigests 0).1 .empty
    grantReplayed s (by decide +kernel) (by decide +kernel) hs⟩

end Patchli.Api
