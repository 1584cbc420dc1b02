import Mathlib.Order.PiLex
import Mathlib.Tactic

/-!
# Lists compared after padding

Lists of different lengths are compared as if the shorter one went on with zeros. They
are then sequences, in their lexicographic order.
-/

namespace Patchli.Padded

section

variable {α : Type*} [LinearOrder α] [Zero α]

/-- The list, continued with zeros. -/
def pad (xs : List α) : Lex (ℕ → α) := toLex fun i => xs.getD i 0

/-- Compare the first `n` components, a missing one being zero. -/
def lessAt : ℕ → List α → List α → Bool
  | 0, _, _ => false
  | n + 1, xs, ys =>
    let (x, y) := (xs.headD 0, ys.headD 0)
    if x = y then lessAt n xs.tail ys.tail else x < y

def less (xs ys : List α) : Bool := lessAt (max xs.length ys.length) xs ys

/-- The list with zeros up to length `n`. -/
def padTo (n : ℕ) (xs : List α) : List α := xs ++ List.replicate (n - xs.length) 0

variable {x y : α} {xs ys zs : List α}

theorem pad_cons_lt :
    pad (x :: xs) < pad (y :: ys) ↔ x < y ∨ x = y ∧ pad xs < pad ys := by
  constructor
  · rintro ⟨i, heq, hlt⟩
    cases i with
    | zero => exact Or.inl hlt
    | succ i =>
      refine Or.inr ⟨heq 0 (Nat.zero_lt_succ i), i, fun j hj => ?_, hlt⟩
      exact heq (j + 1) (Nat.succ_lt_succ hj)
  · rintro (hlt | ⟨rfl, i, heq, hlt⟩)
    · exact ⟨0, fun j hj => (Nat.not_lt_zero j hj).elim, hlt⟩
    · refine ⟨i + 1, fun j hj => ?_, hlt⟩
      cases j with
      | zero => rfl
      | succ j => exact heq j (Nat.lt_of_succ_lt_succ hj)

omit [LinearOrder α] in
theorem pad_headD_tail (xs : List α) : pad (xs.headD 0 :: xs.tail) = pad xs := by
  cases xs with
  | nil =>
    funext i
    cases i <;> rfl
  | cons x xs => rfl

theorem lessAt_iff {n : ℕ} (hx : xs.length ≤ n) (hy : ys.length ≤ n) :
    lessAt n xs ys = true ↔ pad xs < pad ys := by
  induction n generalizing xs ys with
  | zero =>
    obtain rfl := List.length_eq_zero_iff.mp (Nat.le_zero.mp hx)
    obtain rfl := List.length_eq_zero_iff.mp (Nat.le_zero.mp hy)
    exact iff_of_false Bool.false_ne_true (lt_irrefl (pad []))
  | succ n ih =>
    have hrest : lessAt n xs.tail ys.tail = true ↔ pad xs.tail < pad ys.tail := by
      apply ih
      · rw [List.length_tail]
        omega
      · rw [List.length_tail]
        omega
    rw [← pad_headD_tail xs, ← pad_headD_tail ys, pad_cons_lt, ← hrest]
    simp only [lessAt]
    generalize xs.headD 0 = x, ys.headD 0 = y
    split
    · rename_i heq
      simp [heq]
    · rename_i hne
      simp [hne]

theorem less_iff : less xs ys = true ↔ pad xs < pad ys :=
  lessAt_iff (le_max_left ..) (le_max_right ..)

omit [LinearOrder α] in
theorem pad_padTo (n : ℕ) (xs : List α) : pad (padTo n xs) = pad xs := by
  funext i
  change (padTo n xs).getD i 0 = xs.getD i 0
  unfold padTo
  rw [List.getD_eq_getElem?_getD, List.getD_eq_getElem?_getD, List.getElem?_append]
  split
  · rfl
  · rename_i hge
    rw [List.getElem?_eq_none (not_lt.mp hge), List.getElem?_replicate]
    split <;> rfl

omit [LinearOrder α] in
/-- Lists are the same sequence if and only if they are equal after padding to a common
length. -/
theorem pad_eq_iff : pad xs = pad ys ↔
    padTo (max xs.length ys.length) xs = padTo (max xs.length ys.length) ys := by
  constructor
  · intro h
    have hlength {zs : List α} (hle : zs.length ≤ max xs.length ys.length) :
        (padTo (max xs.length ys.length) zs).length = max xs.length ys.length := by
      simp only [padTo, List.length_append, List.length_replicate]
      omega
    apply List.ext_getElem
    · rw [hlength (le_max_left ..), hlength (le_max_right ..)]
    · intro i hi hj
      have hi' := congrFun (pad_padTo (max xs.length ys.length) xs) i
      have hj' := congrFun (pad_padTo (max xs.length ys.length) ys) i
      have hsame : (padTo (max xs.length ys.length) xs).getD i 0 =
          (padTo (max xs.length ys.length) ys).getD i 0 := hi'.trans ((congrFun h i).trans hj'.symm)
      rwa [← List.getElem_eq_getD (h := hi), ← List.getElem_eq_getD (h := hj)] at hsame
  · intro h
    rw [← pad_padTo (max xs.length ys.length) xs, h, pad_padTo]

theorem not_less_iff_pad_eq :
    less xs ys = false ∧ less ys xs = false ↔ pad xs = pad ys := by
  rw [← Bool.not_eq_true, ← Bool.not_eq_true, less_iff, less_iff]
  constructor
  · rintro ⟨hxy, hyx⟩
    exact le_antisymm (not_lt.mp hyx) (not_lt.mp hxy)
  · intro heq
    rw [heq]
    exact ⟨lt_irrefl (pad ys), lt_irrefl (pad ys)⟩

end

end Patchli.Padded
