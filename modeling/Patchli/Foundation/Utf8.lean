import Patchli.Foundation.GoString

/-!
# UTF-8 in Go strings

A Go string splits from the left into encoded characters and bytes that encode
none. Decoding replaces each such byte by U+FFFD; what is left is valid.
-/

namespace Patchli.Utf8

/-- A continuation byte. -/
def isCont (b : UInt8) : Bool := 0x80 ≤ b && b ≤ 0xBF

/-- The second byte that the first one accepts. -/
def accepts (b₀ b₁ : UInt8) : Bool :=
  if b₀ = 0xE0 then 0xA0 ≤ b₁ && b₁ ≤ 0xBF
  else if b₀ = 0xED then 0x80 ≤ b₁ && b₁ ≤ 0x9F
  else if b₀ = 0xF0 then 0x90 ≤ b₁ && b₁ ≤ 0xBF
  else if b₀ = 0xF4 then 0x80 ≤ b₁ && b₁ ≤ 0x8F
  else isCont b₁

/-- The number of bytes that follow a first byte; a byte that starts no character
has none. -/
def trailing (b₀ : UInt8) : Option ℕ :=
  if b₀ < 0x80 then some 0
  else if 0xC2 ≤ b₀ && b₀ ≤ 0xDF then some 1
  else if 0xE0 ≤ b₀ && b₀ ≤ 0xEF then some 2
  else if 0xF0 ≤ b₀ && b₀ ≤ 0xF4 then some 3
  else none

def follows (b₀ : UInt8) : GoString → Bool
  | [] => true
  | b₁ :: bs => accepts b₀ b₁ && bs.all isCont

/-- `utf8.DecodeRune`: the size of the character encoded at the start, 0 if none is. -/
def runeSize : GoString → ℕ
  | [] => 0
  | b :: rest =>
    match trailing b with
    | none => 0
    | some k => if (rest.take k).length = k ∧ follows b (rest.take k) then k + 1 else 0

inductive Segment
  | char (bs : GoString)
  | invalid (b : UInt8)
  deriving DecidableEq

def segmentsAux : ℕ → GoString → List Segment
  | 0, _ | _ + 1, [] => []
  | n + 1, b :: rest =>
    match runeSize (b :: rest) with
    | 0 => .invalid b :: segmentsAux n rest
    | k + 1 => .char (b :: rest.take k) :: segmentsAux n (rest.drop k)

/-- The characters of a string and the bytes between them. -/
def segments (s : GoString) : List Segment := segmentsAux s.length s

theorem segmentsAux_eq {n : ℕ} {s : GoString} (hn : s.length ≤ n) :
    segmentsAux n s = segments s := by
  induction n using Nat.strong_induction_on generalizing s with
  | _ n ih =>
    cases s with
    | nil => cases n <;> rfl
    | cons b rest =>
      cases n with
      | zero => simp at hn
      | succ n =>
        simp only [List.length_cons, Nat.add_le_add_iff_right] at hn
        unfold segments
        simp only [List.length_cons, segmentsAux]
        cases runeSize (b :: rest) with
        | zero => simp only [ih n (by omega) hn, segments]
        | succ k =>
          have hdrop : (rest.drop k).length ≤ rest.length := by simp
          simp only [ih n (by omega) (hdrop.trans hn), ih rest.length (by omega) hdrop]

@[simp] theorem segments_nil : segments [] = [] := rfl

theorem segments_invalid {b : UInt8} {rest : GoString} (h : runeSize (b :: rest) = 0) :
    segments (b :: rest) = .invalid b :: segments rest := by
  unfold segments
  simp only [List.length_cons, segmentsAux, h]

theorem segments_char {b : UInt8} {rest : GoString} {k : ℕ} (h : runeSize (b :: rest) = k + 1) :
    segments (b :: rest) = .char (b :: rest.take k) :: segments (rest.drop k) := by
  have hdrop : (rest.drop k).length ≤ rest.length := by simp
  unfold segments
  simp only [List.length_cons, segmentsAux, h, segmentsAux_eq hdrop, segments]

/-- Induction along the segments of a string. -/
theorem segments_induction {P : GoString → Prop} (nil : P [])
    (invalid : ∀ b rest, runeSize (b :: rest) = 0 → P rest → P (b :: rest))
    (char : ∀ b rest k, runeSize (b :: rest) = k + 1 → P (rest.drop k) → P (b :: rest))
    (s : GoString) : P s := by
  induction hn : s.length using Nat.strong_induction_on generalizing s with
  | _ n ih =>
    subst hn
    cases s with
    | nil => exact nil
    | cons b rest =>
      cases hk : runeSize (b :: rest) with
      | zero => exact invalid b rest hk (ih rest.length (by simp) rest rfl)
      | succ k =>
        exact char b rest k hk (ih (rest.drop k).length (by simp) _ rfl)

theorem runeSize_eq_succ {b : UInt8} {rest : GoString} {k : ℕ} :
    runeSize (b :: rest) = k + 1 ↔
      trailing b = some k ∧ (rest.take k).length = k ∧ follows b (rest.take k) = true := by
  simp only [runeSize]
  split
  · rename_i hnone
    simp [hnone]
  · rename_i m hsome
    rw [hsome, Option.some.injEq]
    split
    · rename_i h
      constructor
      · intro hk
        obtain rfl : m = k := by omega
        exact ⟨rfl, h⟩
      · rintro ⟨rfl, -⟩
        rfl
    · rename_i h
      constructor
      · intro hk
        omega
      · rintro ⟨rfl, hk⟩
        exact absurd hk h

theorem runeSize_append {b : UInt8} {rest : GoString} {k : ℕ} (h : runeSize (b :: rest) = k + 1)
    (tail : GoString) : runeSize (b :: (rest.take k ++ tail)) = k + 1 := by
  rw [runeSize_eq_succ] at h ⊢
  rwa [List.take_left' h.2.1]

theorem take_length_of_runeSize {b : UInt8} {rest : GoString} {k : ℕ}
    (h : runeSize (b :: rest) = k + 1) : (rest.take k).length = k :=
  (runeSize_eq_succ.mp h).2.1

theorem segments_char_append {b : UInt8} {rest : GoString} {k : ℕ}
    (h : runeSize (b :: rest) = k + 1) (tail : GoString) :
    segments (b :: (rest.take k ++ tail)) = .char (b :: rest.take k) :: segments tail := by
  rw [segments_char (runeSize_append h tail), List.take_left' (take_length_of_runeSize h),
    List.drop_left' (take_length_of_runeSize h)]

/-! ### Validity and replacement -/

/-- U+FFFD. -/
def replacement : GoString := [0xEF, 0xBF, 0xBD]

def Segment.valid : Segment → Bool
  | .char _ => true
  | .invalid _ => false

/-- What decoding makes of a segment. -/
def Segment.decoded : Segment → GoString
  | .char bs => bs
  | .invalid _ => replacement

/-- `utf8.ValidString`. -/
def Valid (s : GoString) : Prop := ∀ x ∈ segments s, x.valid = true

instance (s : GoString) : Decidable (Valid s) :=
  inferInstanceAs (Decidable (∀ x ∈ segments s, x.valid = true))

/-- Replace every byte that encodes nothing by U+FFFD. -/
def toValid (s : GoString) : GoString := (segments s).flatMap Segment.decoded

theorem segments_replacement (tail : GoString) :
    segments (replacement ++ tail) = .char replacement :: segments tail :=
  segments_char_append (show runeSize (0xEF :: [0xBF, 0xBD]) = 2 + 1 by decide) tail

theorem segments_toValid (s : GoString) :
    segments (toValid s) = (segments s).map fun x => .char x.decoded := by
  induction s using segments_induction with
  | nil => rfl
  | invalid b rest h ih =>
    unfold toValid at ih ⊢
    rw [segments_invalid h, List.flatMap_cons, List.map_cons, ← ih]
    exact segments_replacement _
  | char b rest k h ih =>
    unfold toValid at ih ⊢
    rw [segments_char h, List.flatMap_cons, List.map_cons, ← ih]
    exact segments_char_append h _

theorem valid_toValid (s : GoString) : Valid (toValid s) := by
  intro x hx
  rw [segments_toValid] at hx
  obtain ⟨y, -, rfl⟩ := List.mem_map.mp hx
  rfl

theorem toValid_of_valid {s : GoString} (h : Valid s) : toValid s = s := by
  induction s using segments_induction with
  | nil => rfl
  | invalid b rest hb ih =>
    have hinvalid := h (.invalid b) (by rw [segments_invalid hb]; simp)
    cases hinvalid
  | char b rest k hb ih =>
    have hrest : Valid (rest.drop k) := by
      intro x hx
      apply h x
      rw [segments_char hb]
      exact List.mem_cons_of_mem _ hx
    have hdrop := ih hrest
    unfold toValid at hdrop ⊢
    rw [segments_char hb, List.flatMap_cons, hdrop]
    change b :: (rest.take k ++ rest.drop k) = b :: rest
    rw [List.take_append_drop]

@[simp] theorem toValid_toValid (s : GoString) : toValid (toValid s) = toValid s :=
  toValid_of_valid (valid_toValid s)

theorem valid_iff_toValid {s : GoString} : Valid s ↔ toValid s = s := by
  constructor
  · exact toValid_of_valid
  · intro h
    rw [← h]
    exact valid_toValid s

theorem valid_of_ascii {s : GoString} (h : ∀ b ∈ s, b < 0x80) : Valid s := by
  induction s with
  | nil => exact fun x hx => nomatch hx
  | cons b rest ih =>
    have hb : runeSize (b :: rest) = 0 + 1 := by
      simp [runeSize_eq_succ, trailing, follows, h b (by simp)]
    intro x hx
    rw [segments_char hb] at hx
    rcases List.mem_cons.mp hx with rfl | hx
    · rfl
    · exact ih (fun c hc => h c (by simp [hc])) x (by simpa using hx)

end Patchli.Utf8
