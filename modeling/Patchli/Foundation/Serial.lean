import Mathlib.Tactic

/-!
# Keyed tables and sequences

Rows of a table with a primary key, inserted one by one, and the sequence of a `SERIAL`
column.
-/

namespace Patchli.Serial

/-! ### Rows -/

section

variable {α κ : Type*} [DecidableEq κ] (key : α → κ) (valid : α → Prop) [DecidablePred valid]

/-- One row, if it is valid and its key is new. -/
def insert (rows : List α) (r : α) : Option (List α) :=
  if valid r ∧ key r ∉ rows.map key then some (rows ++ [r]) else none

def insertAll (rows rs : List α) : Option (List α) := rs.foldlM (insert key valid) rows

theorem insertAll_eq {rows rs : List α} (hkeys : ((rows ++ rs).map key).Nodup)
    (hvalid : ∀ r ∈ rs, valid r) : insertAll key valid rows rs = some (rows ++ rs) := by
  induction rs generalizing rows with
  | nil => simp [insertAll]
  | cons r rs ih =>
    have hnew : key r ∉ rows.map key := by
      rw [List.map_append, List.map_cons] at hkeys
      intro hmem
      exact List.disjoint_of_nodup_append hkeys hmem (List.mem_cons_self ..)
    have hinsert : insert key valid rows r = some (rows ++ [r]) :=
      if_pos ⟨hvalid r (List.mem_cons_self ..), hnew⟩
    have hrest : insertAll key valid (rows ++ [r]) rs = some (rows ++ [r] ++ rs) := by
      apply ih
      · rwa [List.append_assoc, List.singleton_append]
      · intro s hs
        exact hvalid s (List.mem_cons_of_mem _ hs)
    rw [List.append_assoc, List.singleton_append] at hrest
    rw [← hrest, insertAll, List.foldlM_cons, hinsert]
    rfl

end

/-! ### Sequences -/

/-- The state of a sequence that counts upward from 1. -/
structure Sequence where
  lastValue : ℤ
  isCalled : Bool
  deriving DecidableEq

namespace Sequence

def start : Sequence := ⟨1, false⟩

/-- The value that comes next, in range or not. -/
def next (s : Sequence) : ℤ := if s.isCalled then s.lastValue + 1 else s.lastValue

/-- `nextval`, for a sequence with that largest value. -/
def nextval (maxValue : ℤ) (s : Sequence) : Option (ℤ × Sequence) :=
  if s.next ≤ maxValue then some (s.next, ⟨s.next, true⟩) else none

/-- `setval` -/
def setval (maxValue v : ℤ) (isCalled : Bool) : Option Sequence :=
  if 1 ≤ v ∧ v ≤ maxValue then some ⟨v, isCalled⟩ else none

@[simp] theorem next_uncalled (v : ℤ) : next ⟨v, false⟩ = v := rfl

@[simp] theorem next_called (v : ℤ) : next ⟨v, true⟩ = v + 1 := rfl

end Sequence

/-- One more than the largest of some values, or 1 if there are none. -/
def following (ids : List ℤ) : ℤ := (ids.max?.map fun m => m + 1).getD 1

theorem lt_following {ids : List ℤ} {i : ℤ} (hi : i ∈ ids) : i < following ids := by
  obtain ⟨m, hm⟩ : ∃ m, ids.max? = some m := by
    apply Option.isSome_iff_exists.mp
    exact List.isSome_max?_of_mem hi
  have hle := (List.max?_eq_some_iff.mp hm).2 i hi
  rw [following, hm]
  exact Int.lt_add_one_of_le hle

/-- The next value fits the sequence if all values are below the bound and, where there are
any, some value is not negative. -/
theorem following_mem {ids : List ℤ} {maxValue : ℤ} (hpos : 1 ≤ maxValue) :
    1 ≤ following ids ∧ following ids ≤ maxValue ↔
      (∀ i ∈ ids, i < maxValue) ∧ (ids ≠ [] → ∃ i ∈ ids, 0 ≤ i) := by
  cases hmax : ids.max? with
  | none =>
    have hnil : ids = [] := List.max?_eq_none_iff.mp hmax
    subst hnil
    simpa [following] using hpos
  | some m =>
    obtain ⟨hmem, hle⟩ := List.max?_eq_some_iff.mp hmax
    have hfollowing : following ids = m + 1 := by rw [following, hmax]; rfl
    rw [hfollowing]
    constructor
    · rintro ⟨hlow, hhigh⟩
      refine ⟨?_, ?_⟩
      · intro i hi
        have hi' := hle i hi
        omega
      · intro _
        exact ⟨m, hmem, by omega⟩
    · rintro ⟨hbelow, hnonneg⟩
      obtain ⟨i, hi, hzero⟩ := hnonneg (List.ne_nil_of_mem hmem)
      have hi' := hle i hi
      have hm := hbelow m hmem
      omega

end Patchli.Serial
