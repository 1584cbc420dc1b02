import Patchli.Foundation.Machine

/-!
# Transactions over a store, one statement at a time

A transaction is a program of statements. Its clock is fixed when it begins; a
statement sees the committed store overlaid with the transaction's own writes,
waits for the locks it takes, and keeps them until the transaction ends. This is
the READ COMMITTED discipline with transaction-scoped locks.
-/

namespace Patchli.Transaction

open Machine

/-- Statements, their replies and the row changes they make. -/
structure Language where
  Store : Type
  Stmt : Type
  Reply : Stmt → Type
  Write : Type
  LockKey : Type
  /-- The locks a statement waits for on the store it sees. -/
  locks : ℤ → Store → Stmt → List LockKey
  /-- Reply and writes; `none` when the statement is rejected. -/
  eval : ℤ → Store → (q : Stmt) → Option (Reply q × List Write)
  write : Write → Store → Store

variable {L : Language}

/-- A transaction body. The reply of a statement selects the rest. -/
inductive Prog (L : Language) (α : Type) : Type
  | ret (a : α) : Prog L α
  | stmt (q : L.Stmt) (next : L.Reply q → Prog L α) : Prog L α

namespace Prog

def bind {α β : Type} : Prog L α → (α → Prog L β) → Prog L β
  | .ret a, f => f a
  | .stmt q next, f => .stmt q fun r => (next r).bind f

instance : Monad (Prog L) where
  pure := .ret
  bind := .bind

def exec (q : L.Stmt) : Prog L (L.Reply q) := .stmt q .ret

@[simp] theorem pure_eq {α : Type} (a : α) : (pure a : Prog L α) = .ret a := rfl

@[simp] theorem ret_bind {α β : Type} (a : α) (f : α → Prog L β) : (Prog.ret a >>= f) = f a := rfl

@[simp] theorem exec_bind {β : Type} (q : L.Stmt) (f : L.Reply q → Prog L β) :
    (exec q >>= f) = .stmt q f := rfl

@[simp] theorem stmt_bind {α β : Type} (q : L.Stmt) (next : L.Reply q → Prog L α)
    (f : α → Prog L β) : (Prog.stmt q next >>= f) = .stmt q fun r => next r >>= f := rfl

/-- Every statement that the program may come to. -/
def All {α : Type} (Q : L.Stmt → Prop) : Prog L α → Prop
  | .ret _ => True
  | .stmt q next => Q q ∧ ∀ r, (next r).All Q

theorem All.bind {α β : Type} {Q : L.Stmt → Prop} {p : Prog L α} {f : α → Prog L β}
    (hp : p.All Q) (hf : ∀ a, (f a).All Q) : (p >>= f).All Q := by
  induction p with
  | ret a => exact hf a
  | stmt q next ih => exact ⟨hp.1, fun r => ih r (hp.2 r)⟩

end Prog

/-- The store as a transaction with pending writes `ws` sees it. -/
def overlay (ws : List L.Write) (D : L.Store) : L.Store :=
  ws.foldl (fun E w => L.write w E) D

@[simp] theorem overlay_nil (D : L.Store) : overlay [] D = D := rfl

@[simp] theorem overlay_cons (w : L.Write) (ws : List L.Write) (D : L.Store) :
    overlay (w :: ws) D = overlay ws (L.write w D) := rfl

theorem overlay_append (ws vs : List L.Write) (D : L.Store) :
    overlay (ws ++ vs) D = overlay vs (overlay ws D) := by
  simp [overlay, List.foldl_append]

/-- The transactions a service runs: one body per call. An error rolls back. -/
structure Service (L : Language) where
  Call : Type
  Result : Type
  Error : Type
  body : Call → Prog L (Except Error Result)

variable {S : Service L}

/-- A transaction in progress. `begun` is its fixed clock reading. -/
structure Tx (S : Service L) where
  call : S.Call
  begun : ℤ
  writes : List L.Write
  prog : Prog L (Except S.Error S.Result)

structure Commit (S : Service L) where
  call : S.Call
  begun : ℤ
  committed : ℤ
  result : S.Result

instance [DecidableEq S.Call] [DecidableEq S.Result] : DecidableEq (Commit S) :=
  fun x y => decidable_of_iff
    (x.call = y.call ∧ x.begun = y.begun ∧ x.committed = y.committed ∧ x.result = y.result)
    (by cases x; cases y; simp)

/-- `log` lists the committed transactions in commit order. -/
structure State (S : Service L) where
  now : ℤ
  store : L.Store
  locks : L.LockKey → Option ℕ
  txs : ℕ → Option (Tx S)
  log : List (Commit S)

def State.initial (S : Service L) (now : ℤ) (D : L.Store) : State S :=
  ⟨now, D, fun _ => none, fun _ => none, []⟩

inductive Action (S : Service L)
  | tick (t : ℤ)
  | begin (i : ℕ) (c : S.Call)
  /-- The next statement of transaction `i`, once its locks are free. -/
  | exec (i : ℕ)
  /-- A statement, the connection or the commit fails. -/
  | abort (i : ℕ)
  /-- The body returned: commit its result or roll its error back. -/
  | finish (i : ℕ)

/-- Every transaction in progress began at `t` or later. -/
def State.BegunSince (s : State S) (t : ℤ) : Prop :=
  t ≤ s.now ∧ ∀ i x, s.txs i = some x → t ≤ x.begun

theorem begunSince_update {t : ℤ} {txs : ℕ → Option (Tx S)} {i : ℕ} {o : Option (Tx S)}
    (h : ∀ i x, txs i = some x → t ≤ x.begun) (ho : ∀ x, o = some x → t ≤ x.begun) :
    ∀ j x, Function.update txs i o j = some x → t ≤ x.begun := by
  intro j x hx
  by_cases hj : j = i
  · subst hj
    exact ho x (by simpa using hx)
  · exact h j x (by simpa [hj] using hx)

variable [DecidableEq L.LockKey]

/-- Forget transaction `i` and release what it holds. -/
def State.close (s : State S) (i : ℕ) : State S :=
  { s with
    locks := fun k => if s.locks k = some i then none else s.locks k
    txs := Function.update s.txs i none }

def State.free (s : State S) (i : ℕ) (k : L.LockKey) : Bool :=
  s.locks k = none || s.locks k = some i

def State.grab (s : State S) (i : ℕ) (ks : List L.LockKey) : L.LockKey → Option ℕ :=
  fun k => if k ∈ ks then some i else s.locks k

def step (s : State S) : Action S → Option (State S)
  | .tick t => if s.now ≤ t then some { s with now := t } else none
  | .begin i c =>
    match s.txs i with
    | none => some { s with txs := Function.update s.txs i (some ⟨c, s.now, [], S.body c⟩) }
    | some _ => none
  | .exec i =>
    match s.txs i with
    | some ⟨c, b, ws, .stmt q next⟩ =>
      let seen := overlay ws s.store
      if (L.locks b seen q).all (s.free i) then
        match L.eval b seen q with
        | some (r, vs) => some { s with
            locks := s.grab i (L.locks b seen q)
            txs := Function.update s.txs i (some ⟨c, b, ws ++ vs, next r⟩) }
        | none => some (s.close i)
      else none
    | _ => none
  | .abort i =>
    match s.txs i with
    | some _ => some (s.close i)
    | none => none
  | .finish i =>
    match s.txs i with
    | some ⟨c, b, ws, .ret (.ok a)⟩ =>
      some { s.close i with
        store := overlay ws s.store
        log := s.log ++ [⟨c, b, s.now, a⟩] }
    | some ⟨_, _, _, .ret (.error _)⟩ => some (s.close i)
    | _ => none

theorem begunSince_step {t : ℤ} {s u : State S} {a : Action S} (h : s.BegunSince t)
    (hstep : step s a = some u) : u.BegunSince t := by
  obtain ⟨hnow, htxs⟩ := h
  have hclosed (i : ℕ) : ∀ j x, (s.close i).txs j = some x → t ≤ x.begun :=
    begunSince_update htxs fun _ hx => nomatch hx
  cases a with
  | tick t' =>
    simp only [step, Option.ite_none_right_eq_some, Option.some.injEq] at hstep
    obtain ⟨hle, rfl⟩ := hstep
    exact ⟨hnow.trans hle, htxs⟩
  | begin i c =>
    simp only [step] at hstep
    split at hstep <;> cases hstep
    refine ⟨hnow, begunSince_update htxs fun x hx => ?_⟩
    cases hx
    exact hnow
  | exec i =>
    simp only [step] at hstep
    split at hstep
    · rename_i c b ws q next ht
      split at hstep
      · split at hstep <;> cases hstep
        · have hb : t ≤ b := htxs i _ ht
          refine ⟨hnow, begunSince_update htxs fun x hx => ?_⟩
          cases hx
          exact hb
        · exact ⟨hnow, hclosed i⟩
      · cases hstep
    · cases hstep
  | abort i =>
    simp only [step] at hstep
    split at hstep <;> cases hstep
    exact ⟨hnow, hclosed i⟩
  | finish i =>
    simp only [step] at hstep
    split at hstep <;> cases hstep <;> exact ⟨hnow, hclosed i⟩

theorem txs_step {s u : State S} {a : Action S} (hstep : step s a = some u) {j : ℕ} {t : Tx S}
    (ht : u.txs j = some t) : a = .begin j t.call ∨
      ∃ t₀, s.txs j = some t₀ ∧ t₀.call = t.call ∧ t₀.begun = t.begun := by
  have hclosed {i : ℕ} (ht : (s.close i).txs j = some t) :
      ∃ t₀, s.txs j = some t₀ ∧ t₀.call = t.call ∧ t₀.begun = t.begun := by
    by_cases hj : j = i
    · simp [State.close, hj] at ht
    · exact ⟨t, by simpa [State.close, hj] using ht, rfl, rfl⟩
  cases a with
  | tick t' =>
    simp only [step, Option.ite_none_right_eq_some, Option.some.injEq] at hstep
    obtain ⟨-, rfl⟩ := hstep
    exact Or.inr ⟨t, ht, rfl, rfl⟩
  | begin i c =>
    simp only [step] at hstep
    split at hstep <;> cases hstep
    by_cases hj : j = i
    · subst hj
      obtain rfl : _ = t := by simpa using ht
      exact Or.inl rfl
    · exact Or.inr ⟨t, by simpa [hj] using ht, rfl, rfl⟩
  | exec i =>
    simp only [step] at hstep
    split at hstep
    · rename_i c b ws q next hi
      split at hstep
      · split at hstep <;> cases hstep
        · by_cases hj : j = i
          · subst hj
            obtain rfl : _ = t := by simpa using ht
            exact Or.inr ⟨_, hi, rfl, rfl⟩
          · exact Or.inr ⟨t, by simpa [hj] using ht, rfl, rfl⟩
        · exact Or.inr (hclosed ht)
      · cases hstep
    · cases hstep
  | abort i =>
    simp only [step] at hstep
    split at hstep <;> cases hstep
    exact Or.inr (hclosed ht)
  | finish i =>
    simp only [step] at hstep
    split at hstep <;> cases hstep <;> exact Or.inr (hclosed ht)

end Patchli.Transaction
