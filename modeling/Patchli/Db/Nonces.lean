import Patchli.Db.Refinement

/-!
# Registration nonces are consumed once

A consumed nonce is kept through its expiry, and whoever consumes it at the same time
waits for the first to end. So if every call that names a nonce names one expiry, and
inserts the nonce no later than that, then at most one of them commits.
-/

namespace Patchli.Db

open Transaction

/-- The nonce that a call consumes, and its expiry. -/
def Call.nonce : Call → Option (GoString × Time)
  | .enrollNode _ nonce nonceExpiresAt _ _ => some (nonce, nonceExpiresAt)
  | .rotateRefreshToken _ _ _ _ | .revokeEnrollment _ => none

variable {H : Digests}

def consumed (log : List (Commit (service H))) : List GoString :=
  log.filterMap fun c => c.call.nonce.map Prod.fst

/-! ### What a body does to nonces -/

/-- A call inserts no nonce but its own. -/
def OwnNonce (H : Digests) (c : Call) : Stmt → Prop
  | .insertNonce hash e => ∃ nonce, c.nonce = some (nonce, e) ∧ hash = hashToken H nonce
  | _ => True

theorem body_ownNonce (c : Call) : (body H c).All (OwnNonce H c) := by
  cases c with
  | enrollNode mac nonce ne tok e =>
    refine Prog.All.bind ⟨trivial, fun _ => ⟨trivial, fun enrolled => ?_⟩⟩ fun _ => trivial
    dsimp only [Prog.bind]
    split
    · trivial
    · refine Prog.All.bind ⟨trivial, fun _ => ⟨⟨nonce, rfl, rfl⟩, fun _ => ⟨trivial,
        fun _ => trivial⟩⟩⟩ fun fresh => ?_
      split
      · trivial
      · exact ⟨trivial, fun _ => ⟨trivial, fun _ => ⟨trivial, fun _ => trivial⟩⟩⟩
  | rotateRefreshToken mac old new e =>
    refine Prog.All.bind ⟨trivial, fun _ => ⟨trivial, fun _ => ⟨trivial, fun n => ?_⟩⟩⟩
      fun _ => trivial
    dsimp only [Prog.bind]
    split
    · exact ⟨trivial, fun _ => trivial⟩
    · exact ⟨trivial, fun _ => ⟨trivial, fun _ => trivial⟩⟩
  | revokeEnrollment mac =>
    exact ⟨trivial, fun _ => ⟨trivial, fun _ => ⟨trivial, fun _ => trivial⟩⟩⟩

theorem consumeNonce_inserts {k nonce : GoString} {ne b : Time} {D : Tables} {ws out : List Write}
    (h : Completes (byNode H) k b D ws (consumeNonce H nonce ne) out true) :
    .insertNonce ⟨hashToken H nonce, ne⟩ ∈ out := by
  obtain ⟨ws₁, _, -, h⟩ := completes_bind.mp h
  obtain ⟨ws₂, n, h₂, h⟩ := completes_bind.mp h
  obtain ⟨ws₃, m, h₃, h⟩ := completes_bind.mp h
  obtain ⟨rfl, hm⟩ := completes_ret.mp h
  obtain ⟨vs₂, ⟨E, -, heval⟩, rfl⟩ := completes_exec.mp h₂
  obtain ⟨vs₃, ⟨F, -, hrows⟩, rfl⟩ := completes_exec.mp h₃
  cases hrows
  simp only [Tables.eval] at heval
  split at heval <;> cases heval
  · cases hm
  · simp

theorem completes_inserts {c : Call} {k nonce : GoString} {ne b : Time} {D : Tables}
    {out : List Write} {a : Returned} (hc : c.nonce = some (nonce, ne))
    (h : Completes (byNode H) k b D [] (body H c) out (.ok a)) :
    .insertNonce ⟨hashToken H nonce, ne⟩ ∈ out := by
  cases c with
  | enrollNode mac nonce' ne' tok e =>
    cases hc
    obtain ⟨ws, r, hbody, hret⟩ := completes_bind.mp h
    obtain ⟨rfl, ha⟩ := completes_ret.mp hret
    obtain ⟨ws₀, _, -, hbody⟩ := completes_bind.mp hbody
    obtain ⟨ws₁, enrolled, -, hbody⟩ := completes_bind.mp hbody
    split at hbody
    · obtain ⟨-, rfl⟩ := completes_ret.mp hbody
      cases ha
    · obtain ⟨ws₂, fresh, hconsume, hbody⟩ := completes_bind.mp hbody
      split at hbody
      · obtain ⟨-, rfl⟩ := completes_ret.mp hbody
        cases ha
      · rename_i hfresh
        obtain rfl : fresh = true := by simpa using hfresh
        obtain ⟨vs, rfl⟩ := completes_extends hbody
        exact List.mem_append_left _ (consumeNonce_inserts hconsume)
  | rotateRefreshToken | revokeEnrollment => cases hc

theorem eval_deletes {now : Time} {D : Tables} {q : Stmt} {r : q.Reply} {vs : List Write}
    {rows : List RegistrationNonce} (heval : D.eval now q = some (r, vs))
    (hrows : .deleteNonces rows ∈ vs) : ∀ row ∈ rows, row.expiresAt < now := by
  cases q with
  | deleteExpiredNonces =>
    cases heval
    cases List.mem_singleton.mp hrows
    intro row hrow
    simpa using (List.mem_filter.mp hrow).2
  | insertNonce | insertNode | insertRefreshToken | extendEnrollment =>
    simp only [Tables.eval] at heval
    split at heval <;> cases heval <;> simp at hrows
  | _ =>
    cases heval
    simp at hrows

theorem eval_inserts {now : Time} {D : Tables} {q : Stmt} {r : q.Reply} {vs : List Write}
    {row : RegistrationNonce} (heval : D.eval now q = some (r, vs))
    (hrow : .insertNonce row ∈ vs) : q = .insertNonce row.nonceHash row.expiresAt ∧
      ∀ r ∈ D.registrationNonces, r.nonceHash ≠ row.nonceHash := by
  cases q with
  | insertNonce hash e =>
    simp only [Tables.eval] at heval
    split at heval <;> cases heval
    · cases hrow
    · rename_i hnone
      cases List.mem_singleton.mp hrow
      exact ⟨rfl, by simpa using hnone⟩
  | insertNode | insertRefreshToken | extendEnrollment =>
    simp only [Tables.eval] at heval
    split at heval <;> cases heval <;> simp at hrow
  | _ =>
    cases heval
    simp at hrow

theorem mem_nonces_overlay {ws : List Write} {D : Tables} {row : RegistrationNonce}
    (hkeep : ∀ rows, .deleteNonces rows ∈ ws → row ∉ rows)
    (h : row ∈ D.registrationNonces ∨ .insertNonce row ∈ ws) :
    row ∈ (overlay (L := sql H) ws D).registrationNonces := by
  induction ws generalizing D with
  | nil => exact h.resolve_right List.not_mem_nil
  | cons w ws ih =>
    refine ih (fun rows hrows => hkeep rows (List.mem_cons_of_mem _ hrows)) ?_
    rw [List.mem_cons, ← or_assoc] at h
    refine h.imp_left fun h => ?_
    cases w with
    | deleteNonces rows =>
      have hrow := h.resolve_right (by rintro ⟨⟩)
      simpa [Tables.write] using ⟨hrow, hkeep rows List.mem_cons_self⟩
    | insertNonce new =>
      rcases h with h | h
      · exact List.mem_append_left _ h
      · cases h
        exact List.mem_append_right _ (List.mem_singleton_self _)
    | _ => exact h.resolve_right (by rintro ⟨⟩)

/-! ### Every run -/

section

variable (names : GoString → Time → Prop)

/-- What a transaction has done to nonces, and may still do. -/
structure NonceTx (s : State (service H)) (i : ℕ) (t : Tx (service H)) : Prop where
  named : ∀ nonce e, t.call.nonce = some (nonce, e) → names nonce e
  own : t.prog.All (OwnNonce H t.call)
  deletes : ∀ rows, .deleteNonces rows ∈ t.writes → ∀ r ∈ rows, r.expiresAt < t.begun
  /-- An inserted nonce is the call's own, is locked, and was consumed by nobody. -/
  inserts : ∀ row, .insertNonce row ∈ t.writes → ∃ nonce e, t.call.nonce = some (nonce, e) ∧
    row = ⟨hashToken H nonce, e⟩ ∧ s.locks (.nonce (hashToken H nonce)) = some i ∧
    nonce ∉ consumed s.log

/-- Consumed nonces are stored until they expire, and each was consumed once. -/
structure NonceInv (s : State (service H)) : Prop where
  guarded : guarded.Inv s
  txs : ∀ i t, s.txs i = some t → NonceTx names s i t
  stored : ∀ c ∈ s.log, ∀ nonce e, c.call.nonce = some (nonce, e) → names nonce e ∧
    (s.now ≤ e → ⟨hashToken H nonce, e⟩ ∈ s.store.registrationNonces)
  once : (consumed s.log).Nodup

/-- A new call names the expiry of its nonce, and a nonce is inserted no later than that. -/
def InTime (s : State (service H)) : Action (service H) → Prop
  | .begin _ c => ∀ nonce e, c.nonce = some (nonce, e) → names nonce e
  | .exec i => ∀ t hash e next, s.txs i = some t → t.prog = .stmt (.insertNonce hash e) next →
    s.now ≤ e
  | _ => True

end

variable {names : GoString → Time → Prop} {s u : State (service H)} {i j : ℕ} {t : Tx (service H)}

theorem nonceInv_initial (now : Time) (D : Tables) : NonceInv names (initial H now D) where
  guarded := Db.guarded.inv_initial now D
  txs := fun _ _ ht => nomatch ht
  stored := fun _ hc => nomatch hc
  once := List.nodup_nil

theorem mem_consumed {log : List (Commit (service H))} {nonce : GoString} :
    nonce ∈ consumed log ↔ ∃ c ∈ log, ∃ e, c.call.nonce = some (nonce, e) := by
  simp [consumed]

theorem NonceTx.frame (h : NonceTx names s j t)
    (hlocks : ∀ k, s.locks k = some j → u.locks k = some j)
    (hlog : ∀ nonce, s.locks (.nonce (hashToken H nonce)) = some j → nonce ∉ consumed s.log →
      nonce ∉ consumed u.log) : NonceTx names u j t where
  named := h.named
  own := h.own
  deletes := h.deletes
  inserts := by
    intro row hrow
    obtain ⟨nonce, e, hnonce, rfl, hheld, hnew⟩ := h.inserts row hrow
    exact ⟨nonce, e, hnonce, rfl, hlocks _ hheld, hlog nonce hheld hnew⟩

theorem NonceInv.close (h : NonceInv names s) (i : ℕ) : NonceInv names (s.close i) where
  guarded := Db.guarded.inv_close h.guarded i
  txs := by
    intro j t ht
    by_cases hj : j = i
    · simp [State.close, hj] at ht
    · refine (h.txs j t (by simpa [State.close, hj] using ht)).frame (fun k hk => ?_)
        fun _ _ hnew => hnew
      have hne : s.locks k ≠ some i := by
        rw [hk]
        exact fun he => hj (Option.some.inj he)
      simpa only [State.close, if_neg hne] using hk
  stored := h.stored
  once := h.once

theorem NonceInv.begin (h : NonceInv names s) {c : Call} (hc : InTime names s (.begin i c)) :
    NonceInv names { s with txs := Function.update s.txs i (some ⟨c, s.now, [], body H c⟩) } where
  guarded := Db.guarded.inv_begin h.guarded i c
  txs := by
    intro j t ht
    by_cases hj : j = i
    · subst hj
      obtain rfl : _ = t := by simpa using ht
      exact ⟨hc, body_ownNonce c, nofun, nofun⟩
    · exact (h.txs j t (by simpa [hj] using ht)).frame (fun _ hk => hk) fun _ _ hnew => hnew
  stored := h.stored
  once := h.once

/-- A nonce that was consumed is still stored when another call inserts it. -/
theorem NonceInv.not_consumed (h : NonceInv names s)
    (hunique : ∀ nonce e e', names nonce e → names nonce e' → e = e') (ht : s.txs i = some t)
    {nonce : GoString} {e : Time} (hnonce : t.call.nonce = some (nonce, e)) (hle : s.now ≤ e)
    (hfree : ∀ r ∈ (overlay (L := sql H) t.writes s.store).registrationNonces,
      r.nonceHash ≠ hashToken H nonce) : nonce ∉ consumed s.log := by
  intro hmem
  obtain ⟨c, hc, e', hc'⟩ := mem_consumed.mp hmem
  obtain ⟨hnames, hstored⟩ := h.stored c hc nonce e' hc'
  obtain rfl := hunique nonce e e' ((h.txs i t ht).named nonce e hnonce) hnames
  have hrow : ⟨hashToken H nonce, e⟩ ∈
      (overlay (L := sql H) t.writes s.store).registrationNonces := by
    refine mem_nonces_overlay (fun rows hrows hmem => ?_) (Or.inl (hstored hle))
    have hlt := (h.txs i t ht).deletes rows hrows _ hmem
    have hbegun := (h.guarded i t ht).begun_le
    exact lt_irrefl e (hlt.trans_le (hbegun.trans hle))
  exact hfree _ hrow rfl

theorem NonceInv.exec (h : NonceInv names s)
    (hunique : ∀ nonce e e', names nonce e → names nonce e' → e = e') {c : Call} {b : Time}
    {ws vs : List Write} {q : Stmt} {next : q.Reply → OnTx H (Except DbError Returned)}
    {r : q.Reply} (ht : s.txs i = some ⟨c, b, ws, .stmt q next⟩)
    (htime : InTime names s (.exec i))
    (hfree : (locks H b (overlay (L := sql H) ws s.store) q).all (s.free i))
    (heval : Tables.eval b (overlay (L := sql H) ws s.store) q = some (r, vs)) :
    NonceInv names { s with
      locks := s.grab i (locks H b (overlay (L := sql H) ws s.store) q)
      txs := Function.update s.txs i (some ⟨c, b, ws ++ vs, next r⟩) } where
  guarded := Db.guarded.inv_exec h.guarded ht hfree heval
  txs := by
    intro j t hj
    by_cases hji : j = i
    · subst hji
      obtain rfl : _ = t := by simpa using hj
      have htx := h.txs j _ ht
      refine ⟨htx.named, htx.own.2 r, fun rows hrows => ?_, fun row hrow => ?_⟩
      · rcases List.mem_append.mp hrows with hrows | hrows
        · exact htx.deletes rows hrows
        · exact eval_deletes heval hrows
      · rcases List.mem_append.mp hrow with hrow | hrow
        · obtain ⟨nonce, e, hnonce, rfl, hheld, hnew⟩ := htx.inserts row hrow
          refine ⟨nonce, e, hnonce, rfl, ?_, hnew⟩
          simp [State.grab, hheld]
        · obtain ⟨rfl, hnone⟩ := eval_inserts heval hrow
          obtain ⟨nonce, hnonce, hhash⟩ := htx.own.1
          refine ⟨nonce, row.expiresAt, hnonce, by rw [← hhash], ?_, ?_⟩
          · simp [State.grab, locks, hhash]
          · exact h.not_consumed hunique ht hnonce (htime _ _ _ _ ht rfl) (hhash ▸ hnone)
    · exact (h.txs j t (by simpa [hji] using hj)).frame
        (fun k hk => State.grab_of_held hfree hk hji) fun _ _ hnew => hnew
  stored := h.stored
  once := h.once

theorem consumed_append (log : List (Commit (service H))) (c : Commit (service H)) :
    consumed (log ++ [c]) = consumed log ++ (c.call.nonce.map Prod.fst).toList := by
  cases h : c.call.nonce <;> simp [consumed, h]

/-- A call that is about to commit holds its nonce, which nobody has consumed. -/
theorem NonceInv.holds (h : NonceInv names s) {c : Call} {b : Time} {ws : List Write}
    {a : Returned} (ht : s.txs i = some ⟨c, b, ws, .ret (.ok a)⟩) {nonce : GoString} {e : Time}
    (hnonce : c.nonce = some (nonce, e)) :
    s.locks (.nonce (hashToken H nonce)) = some i ∧ nonce ∉ consumed s.log := by
  have hinserted := completes_inserts hnonce ((h.guarded i _ ht).completes rfl)
  obtain ⟨nonce', e', hnonce', -, hheld⟩ := (h.txs i _ ht).inserts _ hinserted
  cases hnonce.symm.trans hnonce'
  exact hheld

theorem NonceInv.commit (h : NonceInv names s) {c : Call} {b : Time} {ws : List Write}
    {a : Returned} (ht : s.txs i = some ⟨c, b, ws, .ret (.ok a)⟩) :
    NonceInv names { s.close i with
      store := overlay (L := sql H) ws s.store
      log := s.log ++ [⟨c, b, s.now, a⟩] } where
  guarded := Db.guarded.inv_commit h.guarded ht rfl
  txs := by
    intro j t hj
    by_cases hji : j = i
    · simp [State.close, hji] at hj
    · refine ((h.close i).txs j t hj).frame (fun _ hk => hk) fun nonce hheld hnew => ?_
      change nonce ∉ consumed (s.log ++ [_])
      rw [consumed_append, List.mem_append, not_or]
      refine ⟨hnew, fun hmem => ?_⟩
      -- both transactions would hold the nonce
      obtain ⟨⟨nonce', e⟩, hnonce, rfl⟩ := Option.map_eq_some_iff.mp (Option.mem_toList.mp hmem)
      simp [State.close, (h.holds ht hnonce).1] at hheld
  stored := by
    have hkeep (e : Time) (hle : s.now ≤ e) (hash : GoString) (rows : List RegistrationNonce)
        (hrows : .deleteNonces rows ∈ ws) : ⟨hash, e⟩ ∉ rows := by
      intro hmem
      have hlt := (h.txs i _ ht).deletes rows hrows _ hmem
      exact lt_irrefl e (hlt.trans_le ((h.guarded i _ ht).begun_le.trans hle))
    intro d hd nonce e hnonce
    rcases List.mem_append.mp hd with hd | hd
    · obtain ⟨hnames, hstored⟩ := h.stored d hd nonce e hnonce
      exact ⟨hnames, fun hle => mem_nonces_overlay (hkeep e hle _) (Or.inl (hstored hle))⟩
    · obtain rfl := List.mem_singleton.mp hd
      have hinserted := completes_inserts hnonce ((h.guarded i _ ht).completes rfl)
      exact ⟨(h.txs i _ ht).named nonce e hnonce,
        fun hle => mem_nonces_overlay (hkeep e hle _) (Or.inr hinserted)⟩
  once := by
    change (consumed (s.log ++ [_])).Nodup
    rw [consumed_append]
    refine h.once.append (by cases c.nonce <;> simp) fun nonce hold hmem => ?_
    obtain ⟨⟨nonce', e⟩, hnonce, rfl⟩ := Option.map_eq_some_iff.mp (Option.mem_toList.mp hmem)
    exact (h.holds ht hnonce).2 hold

/-- Steps whose calls name one expiry for a nonce, and insert it in time. -/
theorem nonceInv_step (hunique : ∀ nonce e e', names nonce e → names nonce e' → e = e')
    (h : NonceInv names s) {a : Action (service H)} (htime : InTime names s a)
    (hstep : step H s a = some u) : NonceInv names u := by
  cases a with
  | tick t =>
    have hguarded := (Db.guarded.step_cases h.guarded hstep).1
    simp only [Db.step, Transaction.step, Option.ite_none_right_eq_some,
      Option.some.injEq] at hstep
    obtain ⟨hle, rfl⟩ := hstep
    refine ⟨hguarded, fun j t ht => (h.txs j t ht).frame (fun _ hk => hk) fun _ _ hnew => hnew,
      fun c hc nonce e hnonce => ?_, h.once⟩
    obtain ⟨hnames, hstored⟩ := h.stored c hc nonce e hnonce
    exact ⟨hnames, fun hlt => hstored (hle.trans hlt)⟩
  | begin i c =>
    simp only [Db.step, Transaction.step] at hstep
    split at hstep <;> cases hstep
    exact h.begin htime
  | exec i =>
    simp only [Db.step, Transaction.step] at hstep
    split at hstep
    · rename_i c b ws q next ht
      split at hstep
      · rename_i hfree
        split at hstep <;> cases hstep
        · rename_i r vs heval
          exact h.exec hunique ht htime hfree heval
        · exact h.close i
      · cases hstep
    · cases hstep
  | abort i =>
    simp only [Db.step, Transaction.step] at hstep
    split at hstep <;> cases hstep
    exact h.close i
  | finish i =>
    simp only [Db.step, Transaction.step] at hstep
    split at hstep
    · rename_i c b ws a ht
      cases hstep
      exact h.commit ht
    · cases hstep
      exact h.close i
    · cases hstep

end Patchli.Db
