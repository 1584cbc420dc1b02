import Patchli.Foundation.Serialization

/-!
# One transaction whose driver calls may fail

A client runs a transaction by itself: it begins it, executes its statements and
commits, and each of these calls of the driver may fail. An error ends the body and
rolls the transaction back.
-/

namespace Patchli.Transaction

variable {L : Language} {α ρ ε : Type}

/-- The committed store, the writes of the open transaction, and the number of driver
calls so far. -/
structure Session (L : Language) where
  store : L.Store
  pending : List L.Write
  calls : ℕ

abbrev Faults := ℕ → Bool

namespace Session

def called (s : Session L) : Session L := { s with calls := s.calls + 1 }

/-- One statement; `none` is an error. -/
def exec (f : Faults) (b : ℤ) (s : Session L) (q : L.Stmt) : Option (L.Reply q) × Session L :=
  if f s.calls then (none, s.called)
  else
    match L.eval b (overlay s.pending s.store) q with
    | none => (none, s.called)
    | some (r, ws) => (some r, { s.called with pending := s.pending ++ ws })

/-- An open transaction that has written nothing. -/
def begin (s : Session L) : Session L := ⟨s.store, [], s.calls + 1⟩

def rollback (s : Session L) : Session L := { s with pending := [] }

def commit (s : Session L) : Session L := ⟨overlay s.pending s.store, [], s.calls⟩

@[simp] theorem called_store (s : Session L) : s.called.store = s.store := rfl

@[simp] theorem rollback_store (s : Session L) : s.rollback.store = s.store := rfl

theorem exec_store (f : Faults) (b : ℤ) (s : Session L) (q : L.Stmt) :
    (s.exec f b q).2.store = s.store := by
  unfold exec
  split
  · rfl
  · split <;> rfl

end Session

/-- Run a body in the open transaction up to its first error. -/
def Prog.execute (f : Faults) (b : ℤ) : Prog L α → Session L → Option α × Session L
  | .ret a, s => (some a, s)
  | .stmt q next, s =>
    match s.exec f b q with
    | (none, s) => (none, s)
    | (some r, s) => (next r).execute f b s

/-- Run statements outside a transaction, each committed by itself. -/
def Prog.autocommit (f : Faults) (b : ℤ) : Prog L α → Session L → Option α × Session L
  | .ret a, s => (some a, s)
  | .stmt q next, s =>
    match s.exec f b q with
    | (none, s) => (none, s)
    | (some r, s) => (next r).autocommit f b s.commit

/-- The error a caller sees. -/
inductive CallError (ε : Type)
  | driver
  | service (e : ε)
  deriving DecidableEq

/-- What a caller gets: the value that the body assigned, which it may have done before
the commit failed, and the error. -/
structure Outcome (ρ ε : Type) where
  value : Option ρ
  err : Option (CallError ε)
  deriving DecidableEq

/-- Begin, run the body, and commit unless it returned an error. -/
def transact (f : Faults) (b : ℤ) (body : Prog L (Except ε ρ)) (s : Session L) :
    Outcome ρ ε × Session L :=
  if f s.calls then (⟨none, some .driver⟩, s.called)
  else
    match body.execute f b s.begin with
    | (none, s) => (⟨none, some .driver⟩, s.called.rollback)
    | (some (.error e), s) => (⟨none, some (.service e)⟩, s.called.rollback)
    | (some (.ok a), s) =>
      if f s.calls then (⟨some a, some .driver⟩, s.called.rollback)
      else (⟨some a, none⟩, s.called.commit)

theorem Prog.execute_store (f : Faults) (b : ℤ) (p : Prog L α) (s : Session L) :
    (p.execute f b s).2.store = s.store := by
  induction p generalizing s with
  | ret a => rfl
  | stmt q next ih =>
    have hexec := s.exec_store f b q
    unfold execute
    split
    · rename_i t ht
      rw [ht] at hexec
      exact hexec
    · rename_i r t ht
      rw [ht] at hexec
      exact (ih r t).trans hexec

theorem Prog.execute_completes {P : Partition L} (k : P.Key) {f : Faults} {b : ℤ} {p : Prog L α}
    {s t : Session L} {a : α} (h : p.execute f b s = (some a, t)) :
    Completes P k b s.store s.pending p t.pending a := by
  induction p generalizing s with
  | ret a' =>
    cases h
    exact .ret _ _
  | stmt q next ih =>
    unfold execute at h
    split at h
    · cases h
    · rename_i r u hexec
      have hstore := s.exec_store f b q
      rw [hexec] at hstore
      unfold Session.exec at hexec
      split at hexec
      · cases hexec
      · split at hexec
        · cases hexec
        · rename_i heval
          cases hexec
          exact .stmt ⟨_, fun _ => rfl, heval⟩ (ih _ h)

/-! ### No call fails -/

/-- Every call of the driver succeeds. -/
def reliable : Faults := fun _ => false

theorem Session.exec_reliable {b : ℤ} {s : Session L} {q : L.Stmt} {r : L.Reply q}
    {ws : List L.Write} (h : L.eval b (overlay s.pending s.store) q = some (r, ws)) :
    s.exec reliable b q = (some r, { s.called with pending := s.pending ++ ws }) := by
  simp [exec, reliable, h]

theorem Prog.execute_reliable {b : ℤ} {s : Session L} {q : L.Stmt} {next : L.Reply q → Prog L α}
    {r : L.Reply q} {ws : List L.Write}
    (h : L.eval b (overlay s.pending s.store) q = some (r, ws)) :
    (Prog.stmt q next).execute reliable b s =
      (next r).execute reliable b { s.called with pending := s.pending ++ ws } := by
  simp only [execute, Session.exec_reliable h]

theorem Prog.execute_bind {β : Type} {f : Faults} {b : ℤ} {p : Prog L α} {g : α → Prog L β}
    {s t : Session L} {a : α} (h : p.execute f b s = (some a, t)) :
    (p >>= g).execute f b s = (g a).execute f b t := by
  induction p generalizing s with
  | ret a' =>
    cases h
    rfl
  | stmt q next ih =>
    rw [stmt_bind]
    rcases hexec : s.exec f b q with ⟨o, u⟩
    cases o with
    | none =>
      simp only [execute, hexec] at h
      cases h
    | some r =>
      simp only [execute, hexec] at h ⊢
      exact ih r h

theorem Prog.execute_map {β : Type} (f : Faults) (b : ℤ) (p : Prog L α) (g : α → β)
    (s : Session L) : (p >>= fun a => .ret (g a)).execute f b s =
      ((p.execute f b s).1.map g, (p.execute f b s).2) := by
  induction p generalizing s with
  | ret a => rfl
  | stmt q next ih =>
    rw [stmt_bind]
    rcases hexec : s.exec f b q with ⟨o, u⟩
    cases o with
    | none => simp only [execute, hexec, Option.map_none]
    | some r =>
      simp only [execute, hexec]
      exact ih r u

/-- What is made of the value in the end does not matter to the error. -/
theorem transact_map {σ : Type} (f : Faults) (b : ℤ) (p : Prog L (Except ε ρ)) (g : ρ → σ)
    (s : Session L) :
    (transact f b (p >>= fun r => .ret (r.map g)) s).1.err = (transact f b p s).1.err := by
  simp only [transact, Prog.execute_map]
  split
  · rfl
  · rcases p.execute f b s.begin with ⟨o, t⟩
    cases o with
    | none => rfl
    | some r =>
      cases r with
      | error e => rfl
      | ok a =>
        dsimp only [Option.map_some, Except.map]
        split <;> rfl

theorem transact_ok {b : ℤ} {body : Prog L (Except ε ρ)} {s t : Session L} {a : ρ}
    (h : body.execute reliable b s.begin = (some (.ok a), t)) :
    transact reliable b body s = (⟨some a, none⟩, t.called.commit) := by
  simp [transact, h, reliable]

theorem transact_error {b : ℤ} {body : Prog L (Except ε ρ)} {s t : Session L} {e : ε}
    (h : body.execute reliable b s.begin = (some (.error e), t)) :
    transact reliable b body s = (⟨none, some (.service e)⟩, t.called.rollback) := by
  simp [transact, h, reliable]

theorem Prog.autocommit_reliable {b : ℤ} {s : Session L} {q : L.Stmt}
    {next : L.Reply q → Prog L α} {r : L.Reply q} {ws : List L.Write}
    (h : L.eval b (overlay s.pending s.store) q = some (r, ws)) :
    (Prog.stmt q next).autocommit reliable b s = (next r).autocommit reliable b
      { s.called with pending := s.pending ++ ws : Session L }.commit := by
  simp only [autocommit, Session.exec_reliable h]

/-- A call either returns an error and leaves the store as it was, or it has run its
body alone and committed it. -/
theorem transact_cases {P : Partition L} (k : P.Key) (f : Faults) (b : ℤ)
    (body : Prog L (Except ε ρ)) (s : Session L) :
    (transact f b body s).1.err ≠ none ∧ (transact f b body s).2.store = s.store ∨
      ∃ a out, (transact f b body s).1 = ⟨some a, none⟩ ∧
        (transact f b body s).2.store = overlay out s.store ∧
        Completes P k b s.store [] body out (.ok a) := by
  have hstore := body.execute_store f b s.begin
  unfold transact
  split
  · exact Or.inl ⟨nofun, rfl⟩
  · split
    · rename_i t ht
      rw [ht] at hstore
      exact Or.inl ⟨nofun, hstore⟩
    · rename_i e t ht
      rw [ht] at hstore
      exact Or.inl ⟨nofun, hstore⟩
    · rename_i a t ht
      rw [ht] at hstore
      split
      · exact Or.inl ⟨nofun, hstore⟩
      · exact Or.inr ⟨a, t.pending, rfl, congrArg (overlay t.pending) hstore,
          Prog.execute_completes k ht⟩

end Patchli.Transaction
