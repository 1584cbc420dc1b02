import Mathlib.Order.Basic
import Mathlib.Logic.Function.Basic

/-!
# Entries that lapse

A table whose entries lapse with time and stay lapsed. Whoever ignores lapsed entries
cannot tell whether they were deleted: tables that agree on their live entries stay in
agreement while time passes, entries are deleted and the same entries are written.
-/

namespace Patchli

/-- When an entry has lapsed; it stays so. -/
structure Lapse (T V : Type*) [Preorder T] where
  lapsed : T → V → Bool
  mono : ∀ {t u v}, t ≤ u → lapsed t v = true → lapsed u v = true

namespace Lapse

variable {T V K : Type*} [Preorder T] (L : Lapse T V) {t u : T} {m n : K → Option V} {k : K}

/-- The entries that have not lapsed at `t`. -/
def live (t : T) (m : K → Option V) (k : K) : Option V := (m k).filter fun v => !L.lapsed t v

theorem live_eq_some {v : V} : L.live t m k = some v ↔ m k = some v ∧ L.lapsed t v = false := by
  simp [live, Option.filter_eq_some_iff]

theorem live_eq_none : L.live t m k = none ↔ ∀ v, m k = some v → L.lapsed t v = true := by
  simp [live, Option.filter_eq_none_iff]

/-- Deleting what has lapsed deletes nothing that is live later. -/
theorem live_live (htu : t ≤ u) (k : K) : L.live u (L.live t m) k = L.live u m k := by
  apply Option.ext
  intro v
  simp only [live_eq_some]
  constructor
  · rintro ⟨⟨hm, -⟩, hu⟩
    exact ⟨hm, hu⟩
  · rintro ⟨hm, hu⟩
    refine ⟨⟨hm, ?_⟩, hu⟩
    cases ht : L.lapsed t v with
    | false => rfl
    | true =>
      rw [L.mono htu ht] at hu
      cases hu

/-- The tables have the same live entry for `k`. -/
def AgreeAt (t : T) (k : K) (m n : K → Option V) : Prop := L.live t m k = L.live t n k

variable {L}

theorem AgreeAt.mono (h : L.AgreeAt t k m n) (htu : t ≤ u) : L.AgreeAt u k m n := by
  have hmn : L.live u (L.live t m) k = L.live u (L.live t n) k := by
    rw [live, show L.live t m k = L.live t n k from h, ← live]
  rwa [L.live_live htu, L.live_live htu] at hmn

theorem AgreeAt.live_left (h : L.AgreeAt t k m n) : L.AgreeAt t k (L.live t m) n :=
  (L.live_live le_rfl k).trans h

theorem AgreeAt.update [DecidableEq K] (h : L.AgreeAt t k m n) (j : K) (v : Option V) :
    L.AgreeAt t k (Function.update m j v) (Function.update n j v) := by
  simp only [AgreeAt, live] at h ⊢
  by_cases hk : k = j
  · rw [hk, Function.update_self, Function.update_self]
  · rwa [Function.update_of_ne hk, Function.update_of_ne hk]

end Lapse
end Patchli
