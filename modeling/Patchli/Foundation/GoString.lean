import Mathlib.Tactic

/-!
# Go strings and clock readings

A Go string is a sequence of bytes with no encoding attached. Clock readings and
durations are nanoseconds, readings counted from the Unix epoch.
-/

namespace Patchli

abbrev GoString := List UInt8

instance : LawfulBEq GoString := inferInstance

/-- The bytes of an ASCII literal. -/
def ascii (s : String) : GoString := s.toList.map fun c => c.toNat.toUInt8

abbrev Time := ℤ

abbrev Duration := ℤ

def second : Duration := 1000000000

def minute : Duration := 60 * second

def hour : Duration := 60 * minute

/-- `t.Sub(u)`, which saturates at the ends of the 64-bit range. -/
def Time.sub (t u : Time) : Duration := max (-2 ^ 63) (min (2 ^ 63 - 1) (t - u))

/-- Saturation does not matter to a comparison with a duration in range. -/
theorem Time.sub_lt_iff {t u : Time} {d : Duration} (hlow : -2 ^ 63 < d) (hhigh : d < 2 ^ 63) :
    Time.sub t u < d ↔ t - u < d := by
  unfold Time.sub
  rw [max_lt_iff, min_lt_iff]
  constructor
  · rintro ⟨-, h | h⟩
    · exact absurd h (not_lt.mpr (Int.le_sub_one_of_lt hhigh))
    · exact h
  · intro h
    exact ⟨hlow, Or.inr h⟩

theorem Time.sub_le_iff {t u : Time} {d : Duration} (hlow : -2 ^ 63 ≤ d)
    (hhigh : d < 2 ^ 63 - 1) : Time.sub t u ≤ d ↔ t - u ≤ d := by
  unfold Time.sub
  rw [max_le_iff, min_le_iff]
  constructor
  · rintro ⟨-, h | h⟩
    · exact absurd h (not_le.mpr hhigh)
    · exact h
  · intro h
    exact ⟨hlow, Or.inr h⟩

theorem Time.sub_mono {t t' : Time} (h : t ≤ t') (u : Time) : Time.sub t u ≤ Time.sub t' u := by
  unfold Time.sub
  exact max_le_max le_rfl (min_le_min le_rfl (sub_le_sub_right h u))

/-- The first of several readings in order is the earliest. -/
theorem Time.first_le {α : Type*} {now : α → Time} {x : α} {xs : List α}
    (hsorted : (x :: xs).Pairwise fun y z => now y ≤ now z) : ∀ y ∈ x :: xs, now x ≤ now y := by
  intro y hy
  rcases List.mem_cons.mp hy with rfl | hy
  · exact le_rfl
  · exact (List.pairwise_cons.mp hsorted).1 y hy

/-- `t.Unix()`. -/
def Time.unix (t : Time) : Int64 := Int64.ofInt (t / second)

/-- `time.Unix(sec, 0)`. Go counts the seconds from the year 1, in 64 bits that wrap. -/
def Time.ofUnix (sec : Int64) : Time := ((sec + 62135596800).toInt - 62135596800) * second

namespace GoString

/-- Case folding as far as it reaches ASCII letters: U+212A folds to `K`, U+017F to
`S`. -/
def foldCase : GoString → GoString
  | 0xE2 :: 0x84 :: 0xAA :: r => 0x4B :: foldCase r
  | 0xC5 :: 0xBF :: r => 0x53 :: foldCase r
  | b :: r => (if 0x61 ≤ b ∧ b ≤ 0x7A then b - 0x20 else b) :: foldCase r
  | [] => []

/-- `strings.EqualFold`, for an ASCII string `t`. -/
def equalFold (s t : GoString) : Bool := foldCase s = foldCase t

def hexDigit (n : ℕ) : UInt8 :=
  if n < 10 then (48 + n).toUInt8 else (87 + n).toUInt8

/-- `hex.EncodeToString`: two lower-case digits for each byte. -/
def hexEncode : GoString → GoString
  | [] => []
  | b :: bs => hexDigit (b.toNat / 16) :: hexDigit (b.toNat % 16) :: hexEncode bs

def hexValue (d : UInt8) : ℕ :=
  if d.toNat < 58 then d.toNat - 48 else d.toNat - 87

theorem hexValue_hexDigit {n : ℕ} (hn : n < 16) : hexValue (hexDigit n) = n := by
  interval_cases n <;> rfl

theorem hexDigit_inj {m n : ℕ} (hm : m < 16) (hn : n < 16) (h : hexDigit m = hexDigit n) :
    m = n := by
  rw [← hexValue_hexDigit hm, h, hexValue_hexDigit hn]

theorem hexEncode_injective : Function.Injective hexEncode := by
  intro s
  induction s with
  | nil =>
    intro t h
    cases t with
    | nil => rfl
    | cons c t => cases h
  | cons b s ih =>
    intro t h
    cases t with
    | nil => cases h
    | cons c t =>
      simp only [hexEncode, List.cons.injEq] at h
      obtain ⟨hhigh, hlow, htail⟩ := h
      have hb := b.toNat_lt
      have hc := c.toNat_lt
      have h1 := hexDigit_inj (by omega) (by omega) hhigh
      have h2 := hexDigit_inj (by omega) (by omega) hlow
      have hbc : b = c := UInt8.toNat_inj.mp (by omega)
      rw [hbc, ih htail]

/-- An injective function with prescribed values. -/
def tabulate (table : List (GoString × GoString)) : GoString → GoString :=
  table.foldr (fun p f => Equiv.swap p.1 p.2 ∘ f) id

theorem tabulate_injective (table : List (GoString × GoString)) :
    Function.Injective (tabulate table) := by
  induction table with
  | nil => exact Function.injective_id
  | cons p table ih => exact (Equiv.injective _).comp ih

end GoString
end Patchli
