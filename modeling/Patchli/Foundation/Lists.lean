import Mathlib.Data.List.Basic
import Mathlib.Data.List.Nodup
import Mathlib.Data.List.Forall2

/-!
# Lists

A list with one class of its elements moved behind the others, and lists without
repetitions.
-/

namespace Patchli.MoveBack

variable {α : Type*} (p : α → Bool)

/-- One element is appended to its class. -/
def collect : List α × List α → α → List α × List α
  | (front, back), x => if p x then (front, back ++ [x]) else (front ++ [x], back)

theorem foldl_collect (xs front back : List α) :
    xs.foldl (collect p) (front, back) =
      (front ++ xs.filter (fun x => !p x), back ++ xs.filter p) := by
  induction xs generalizing front back with
  | nil => simp
  | cons x xs ih =>
    rw [List.foldl_cons]
    cases h : p x with
    | true => simp [collect, h, ih]
    | false => simp [collect, h, ih]

def moveBack (xs : List α) : List α := xs.filter (fun x => !p x) ++ xs.filter p

theorem moveBack_perm (xs : List α) : (moveBack p xs).Perm xs :=
  List.perm_append_comm.trans (List.filter_append_perm p xs)

theorem moveBack_pairwise (xs : List α) :
    (moveBack p xs).Pairwise fun x y => p x = true → p y = true := by
  apply List.pairwise_append.mpr
  refine ⟨?_, ?_, ?_⟩
  · apply List.pairwise_of_forall_mem_list
    intro x hx y _ hpx
    simp [hpx] at hx
  · apply List.pairwise_of_forall_mem_list
    intro x _ y hy _
    exact (List.mem_filter.mp hy).2
  · intro x _ y hy _
    exact (List.mem_filter.mp hy).2

theorem filter_moveBack (xs : List α) : (moveBack p xs).filter p = xs.filter p := by
  simp [moveBack, List.filter_append, List.filter_filter]

theorem filter_not_moveBack (xs : List α) :
    (moveBack p xs).filter (fun x => !p x) = xs.filter fun x => !p x := by
  simp [moveBack, List.filter_append, List.filter_filter]

theorem moveBack_moveBack (xs : List α) : moveBack p (moveBack p xs) = moveBack p xs := by
  change (moveBack p xs).filter (fun x => !p x) ++ (moveBack p xs).filter p = moveBack p xs
  rw [filter_not_moveBack, filter_moveBack, moveBack]

end Patchli.MoveBack

namespace Patchli.Lists

theorem length_filter_le_one {α β : Type*} [DecidableEq β] {f : α → β} {l : List α}
    (h : (l.map f).Nodup) (b : β) : (l.filter fun x => f x = b).length ≤ 1 := by
  have hsub : ((l.filter fun x => f x = b).map f).Sublist (l.map f) := List.filter_sublist.map f
  have hall : (l.filter fun x => f x = b).map f =
      List.replicate (l.filter fun x => f x = b).length b := by
    rw [List.eq_replicate_iff]
    refine ⟨List.length_map _, ?_⟩
    intro c hc
    obtain ⟨x, hx, rfl⟩ := List.mem_map.mp hc
    simpa using (List.mem_filter.mp hx).2
  rw [hall] at hsub
  exact List.nodup_replicate.mp (h.sublist hsub)

end Patchli.Lists
