import Patchli.Foundation.GoString

/-!
# Decimal integers

`strconv.FormatInt` and `strconv.ParseInt` in base 10.
-/

namespace Patchli.Decimal

def isDigit (b : UInt8) : Bool := 0x30 ≤ b && b ≤ 0x39

def digit (n : ℕ) : UInt8 := (48 + n).toUInt8

def digitValue (d : UInt8) : ℕ := d.toNat - 48

def formatNatAux : ℕ → ℕ → GoString
  | 0, _ => []
  | k + 1, n => if n < 10 then [digit n] else formatNatAux k (n / 10) ++ [digit (n % 10)]

def formatNat (n : ℕ) : GoString := formatNatAux (n + 1) n

def formatInt (i : ℤ) : GoString :=
  if i < 0 then 0x2D :: formatNat i.natAbs else formatNat i.natAbs

def parseNat (s : GoString) : Option ℕ :=
  if s ≠ [] ∧ s.all isDigit then some (s.foldl (fun n d => 10 * n + digitValue d) 0) else none

def parseInt : GoString → Option ℤ
  | [] => none
  | d :: ds =>
    if d = 0x2D then (parseNat ds).map fun n : ℕ => -(n : ℤ)
    else (parseNat (d :: ds)).map fun n : ℕ => (n : ℤ)

/-- `strconv.ParseInt(s, 10, 64)` on the number literals of JSON, which have no plus
sign. -/
def parseInt64 (s : GoString) : Option Int64 :=
  (parseInt s).bind fun i =>
    if -2 ^ 63 ≤ i ∧ i < 2 ^ 63 then some (Int64.ofInt i) else none

theorem isDigit_digit {n : ℕ} (hn : n < 10) : isDigit (digit n) = true := by
  interval_cases n <;> rfl

theorem digitValue_digit {n : ℕ} (hn : n < 10) : digitValue (digit n) = n := by
  interval_cases n <;> rfl

theorem formatNat_lt {n : ℕ} (hn : n < 10) : formatNat n = [digit n] := by
  simp [formatNat, formatNatAux, hn]

theorem formatNatAux_eq {k n : ℕ} (hk : n < k) : formatNatAux k n = formatNat n := by
  induction k using Nat.strong_induction_on generalizing n with
  | _ k ih =>
    obtain ⟨k, rfl⟩ : ∃ j, k = j + 1 := ⟨k - 1, by omega⟩
    unfold formatNat
    simp only [formatNatAux]
    split
    · rfl
    · rw [ih k (by omega) (by omega), ih n (by omega) (by omega)]

theorem formatNat_ge {n : ℕ} (hn : 10 ≤ n) :
    formatNat n = formatNat (n / 10) ++ [digit (n % 10)] := by
  have hdiv : formatNatAux n (n / 10) = formatNat (n / 10) := formatNatAux_eq (by omega)
  rw [← hdiv]
  simp [formatNat, formatNatAux, Nat.not_lt.mpr hn]

/-- Induction along the digits of a number. -/
theorem digits_induction {P : ℕ → Prop} (lt : ∀ n, n < 10 → P n)
    (ge : ∀ n, 10 ≤ n → P (n / 10) → P n) (n : ℕ) : P n := by
  induction n using Nat.strong_induction_on with
  | _ n ih =>
    rcases Nat.lt_or_ge n 10 with hn | hn
    · exact lt n hn
    · exact ge n hn (ih (n / 10) (by omega))

theorem formatNat_digits (n : ℕ) : ∀ b ∈ formatNat n, isDigit b = true := by
  induction n using digits_induction with
  | lt n hn =>
    rw [formatNat_lt hn]
    simpa using isDigit_digit hn
  | ge n hn ih =>
    rw [formatNat_ge hn]
    intro b hb
    rcases List.mem_append.mp hb with hb | hb
    · exact ih b hb
    · rw [List.mem_singleton.mp hb]
      exact isDigit_digit (by omega)

theorem formatNat_ne_nil (n : ℕ) : formatNat n ≠ [] := by
  induction n using digits_induction with
  | lt n hn => simp [formatNat_lt hn]
  | ge n hn ih => simp [formatNat_ge hn]

theorem parseNat_formatNat (n : ℕ) : parseNat (formatNat n) = some n := by
  have hfold : (formatNat n).foldl (fun n d => 10 * n + digitValue d) 0 = n := by
    induction n using digits_induction with
    | lt n hn =>
      rw [formatNat_lt hn]
      simpa using digitValue_digit hn
    | ge n hn ih =>
      rw [formatNat_ge hn, List.foldl_append, ih, List.foldl_cons, List.foldl_nil,
        digitValue_digit (by omega)]
      omega
  unfold parseNat
  rw [if_pos, hfold]
  exact ⟨formatNat_ne_nil n, List.all_eq_true.mpr (formatNat_digits n)⟩

theorem formatNat_injective : Function.Injective formatNat := by
  intro m n h
  have hm := parseNat_formatNat m
  rw [h, parseNat_formatNat] at hm
  exact (Option.some.inj hm).symm

theorem formatNat_cons (n : ℕ) : ∃ d ds, formatNat n = d :: ds ∧ (d = 0x30 → ds = []) := by
  induction n using digits_induction with
  | lt n hn => exact ⟨digit n, [], formatNat_lt hn, fun _ => rfl⟩
  | ge n hn ih =>
    obtain ⟨d, ds, hds, hzero⟩ := ih
    refine ⟨d, ds ++ [digit (n % 10)], by rw [formatNat_ge hn, hds, List.cons_append], ?_⟩
    rintro rfl
    have hparse := parseNat_formatNat (n / 10)
    rw [hds, hzero rfl] at hparse
    have hdiv : 0 = n / 10 := Option.some.inj hparse
    omega

theorem parseInt_formatInt (i : ℤ) : parseInt (formatInt i) = some i := by
  have hparse := parseNat_formatNat i.natAbs
  unfold formatInt
  split
  · have habs : -(i.natAbs : ℤ) = i := by omega
    simp only [parseInt, if_true, hparse, Option.map_some, habs]
  · have habs : (i.natAbs : ℤ) = i := by omega
    obtain ⟨d, ds, hds, -⟩ := formatNat_cons i.natAbs
    have hd := formatNat_digits i.natAbs d (by simp [hds])
    have hminus : d ≠ 0x2D := by
      rintro rfl
      cases hd
    rw [hds] at hparse ⊢
    simp only [parseInt, hminus, if_false, hparse, Option.map_some, habs]

theorem parseInt64_formatInt (e : Int64) : parseInt64 (formatInt e.toInt) = some e := by
  unfold parseInt64
  rw [parseInt_formatInt, Option.bind_some, if_pos ⟨e.le_toInt, e.toInt_lt⟩, Int64.ofInt_toInt]

theorem formatInt_injective : Function.Injective formatInt := by
  intro i j h
  have hi := parseInt_formatInt i
  rw [h, parseInt_formatInt] at hi
  exact (Option.some.inj hi).symm

end Patchli.Decimal
