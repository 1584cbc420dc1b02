import Mathlib.Data.List.TakeWhile
import Patchli.Foundation.GoString

/-!
# The package `strings`

Cutting at the first or the last byte of a kind, replacing a byte, and lower case.
-/

namespace Patchli.GoString

/-- The text before the first `c`, and the text after it if there is one. -/
def cut (c : UInt8) (s : GoString) : GoString × Option GoString :=
  match s.span (· ≠ c) with
  | (before, []) => (before, none)
  | (before, _ :: after) => (before, some after)

/-- The texts before and after the last `c`. -/
def cutLast (c : UInt8) (s : GoString) : Option (GoString × GoString) :=
  match s.reverse.span (· ≠ c) with
  | (_, []) => none
  | (after, _ :: before) => some (before.reverse, after.reverse)

/-- `strings.ReplaceAll` of a string of one byte. -/
def replaceByte (c : UInt8) (new s : GoString) : GoString :=
  s.flatMap fun b => if b = c then new else [b]

def lowerByte (b : UInt8) : UInt8 := if 0x41 ≤ b ∧ b ≤ 0x5A then b + 0x20 else b

/-- `strings.ToLower` as far as it reaches ASCII letters: U+0130 becomes `i`, U+212A `k`. -/
def toLower : GoString → GoString
  | 0xC4 :: 0xB0 :: r => 0x69 :: toLower r
  | 0xE2 :: 0x84 :: 0xAA :: r => 0x6B :: toLower r
  | b :: r => lowerByte b :: toLower r
  | [] => []

theorem toLower_ne_nil {s : GoString} (hs : s ≠ []) : toLower s ≠ [] := by
  fun_cases toLower s with
  | case1 r => exact List.cons_ne_nil _ _
  | case2 r => exact List.cons_ne_nil _ _
  | case3 b r => exact List.cons_ne_nil _ _
  | case4 => exact absurd rfl hs

theorem forall_byte {P : UInt8 → Prop} (h : ∀ n < 256, P (UInt8.ofNat n)) (b : UInt8) : P b := by
  have hb := h b.toNat b.toNat_lt
  rwa [UInt8.ofNat_toNat] at hb

theorem lowerByte_high {b : UInt8} (hb : ¬b < 0x80) : ¬lowerByte b < 0x80 := by
  revert hb
  revert b
  apply forall_byte
  decide +kernel

/-- An ASCII text without `i` and `k` is the lower case of ASCII texts only. -/
theorem toLower_eq_iff {s t : GoString} (ht : ∀ b ∈ t, b < 0x80 ∧ b ≠ 0x69 ∧ b ≠ 0x6B) :
    toLower s = t ↔ s.map lowerByte = t := by
  induction s using toLower.induct generalizing t with
  | case1 r =>
    constructor
    · rintro rfl
      exact absurd rfl (ht 0x69 List.mem_cons_self).2.1
    · rintro rfl
      exact absurd (ht _ List.mem_cons_self).1 (lowerByte_high (by decide))
  | case2 r =>
    constructor
    · rintro rfl
      exact absurd rfl (ht 0x6B List.mem_cons_self).2.2
    · rintro rfl
      exact absurd (ht _ List.mem_cons_self).1 (lowerByte_high (by decide))
  | case3 b r hdotted hkelvin ih =>
    rw [toLower.eq_3 b r hdotted hkelvin, List.map_cons]
    cases t with
    | nil => simp
    | cons c t =>
      rw [List.forall_mem_cons] at ht
      rw [List.cons_eq_cons, List.cons_eq_cons, ih ht.2]
  | case4 => rfl

variable {c : UInt8} {s t : GoString}

theorem forall_ne (hs : c ∉ s) : ∀ b ∈ s, decide (b ≠ c) = true := by
  intro b hb
  apply decide_eq_true
  rintro rfl
  exact hs hb

theorem span_of_not_mem (hs : c ∉ s) (rest : GoString) :
    (s ++ c :: rest).span (· ≠ c) = (s, c :: rest) ∧ s.span (· ≠ c) = (s, []) := by
  have hall := forall_ne hs
  rw [List.span_eq_takeWhile_dropWhile, List.span_eq_takeWhile_dropWhile,
    List.takeWhile_append_of_pos hall, List.dropWhile_append_of_pos hall,
    List.takeWhile_eq_self_iff.mpr hall, List.dropWhile_eq_nil_iff.mpr hall]
  simp

theorem cut_fst (c : UInt8) (s : GoString) : (cut c s).1 = s.takeWhile (· ≠ c) := by
  simp only [cut, List.span_eq_takeWhile_dropWhile]
  split <;> rename_i heq <;> exact (Prod.mk.inj heq).1.symm

/-- A text that cannot go on past `c` ends there. -/
theorem takeWhile_append_stop {p : UInt8 → Bool} (hs : ∀ b ∈ s, p b = true)
    (ht : ∀ b ∈ t.head?, p b = false) :
    (s ++ t).takeWhile p = s ∧ (s ++ t).dropWhile p = t := by
  rw [List.takeWhile_append_of_pos hs, List.dropWhile_append_of_pos hs]
  cases t with
  | nil => simp
  | cons b t => simp [ht b rfl]

theorem cutLast_of_not_mem (hs : c ∉ s) : cutLast c s = none := by
  have hrev : c ∉ s.reverse := by simpa using hs
  simp only [cutLast, (span_of_not_mem hrev []).2]

theorem cutLast_append (ht : c ∉ t) (s : GoString) : cutLast c (s ++ c :: t) = some (s, t) := by
  have hrev : c ∉ t.reverse := by simpa using ht
  have hswap : (s ++ c :: t).reverse = t.reverse ++ c :: s.reverse := by simp
  simp only [cutLast, hswap, (span_of_not_mem hrev s.reverse).1, List.reverse_reverse]

theorem eq_of_span {rest : GoString} (h : s.span (· ≠ c) = (t, rest)) :
    s = t ++ rest ∧ c ∉ t ∧ ∀ b ∈ rest.head?, b = c := by
  rw [List.span_eq_takeWhile_dropWhile] at h
  obtain ⟨rfl, rfl⟩ := Prod.mk.inj h
  refine ⟨(List.takeWhile_append_dropWhile).symm, ?_, ?_⟩
  · intro hmem
    simpa using List.mem_takeWhile_imp hmem
  · intro b hb
    have hhead := List.head?_dropWhile_not (fun b => decide (b ≠ c)) s
    rw [Option.mem_def] at hb
    rw [hb] at hhead
    simpa using hhead

theorem eq_of_cutLast {before after : GoString} (h : cutLast c s = some (before, after)) :
    s = before ++ c :: after ∧ c ∉ after := by
  unfold cutLast at h
  split at h
  · cases h
  · rename_i heq
    cases h
    obtain ⟨hsplit, hmem, hhead⟩ := eq_of_span heq
    rw [List.reverse_eq_iff] at hsplit
    rw [hsplit, hhead _ rfl]
    simpa using hmem

end Patchli.GoString
