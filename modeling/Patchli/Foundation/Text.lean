import Patchli.Foundation.Decimal

/-!
# Words of a text

Functions of `strings` that cut a text: at its ends, where white space stands, into
fields, and at a separator.
-/

namespace Patchli.Text

open Decimal

/-! ### White space -/

/-- The white space of Unicode. -/
def whiteSpace : List GoString :=
  ([0x09, 0x0A, 0x0B, 0x0C, 0x0D, 0x20].map fun b => [b]) ++
    [[0xC2, 0x85], [0xC2, 0xA0], [0xE1, 0x9A, 0x80]] ++
    ([0x80, 0x81, 0x82, 0x83, 0x84, 0x85, 0x86, 0x87, 0x88, 0x89, 0x8A, 0xA8, 0xA9, 0xAF].map
      fun b => [0xE2, 0x80, b]) ++
    [[0xE2, 0x81, 0x9F], [0xE3, 0x80, 0x80]]

/-- Remove words of `ws` from the front, at most `n` of them. -/
def trimFront (ws : List GoString) : ℕ → GoString → GoString
  | 0, s => s
  | n + 1, s =>
    match ws.find? fun w => w.isPrefixOf s with
    | none => s
    | some w => trimFront ws n (s.drop w.length)

/-- `strings.TrimSpace`. -/
def trimSpace (s : GoString) : GoString :=
  let s := trimFront whiteSpace s.length s
  (trimFront (whiteSpace.map List.reverse) s.length s.reverse).reverse

/-- `strings.TrimPrefix`. -/
def trimPrefix (s w : GoString) : GoString := if w.isPrefixOf s then s.drop w.length else s

/-! ### White space around a line -/

theorem trimFront_plain {ws : List GoString} {b : UInt8}
    (hws : ∀ w ∈ ws, ∃ c t, w = c :: t ∧ c ≠ b) (n : ℕ) (s : GoString) :
    trimFront ws n (b :: s) = b :: s := by
  cases n with
  | zero => rfl
  | succ n =>
    have hnone : (ws.find? fun w => w.isPrefixOf (b :: s)) = none := by
      apply List.find?_eq_none.mpr
      intro w hw
      obtain ⟨c, t, rfl, hc⟩ := hws w hw
      simp [List.isPrefixOf, hc]
    simp only [trimFront, hnone]

theorem trimFront_newlines (n k : ℕ) (s : GoString) :
    trimFront (whiteSpace.map List.reverse) (n + k) (List.replicate k 0x0A ++ s) =
      trimFront (whiteSpace.map List.reverse) n s := by
  induction k with
  | zero => rfl
  | succ k ih =>
    have hfind (r : GoString) : ((whiteSpace.map List.reverse).find? fun w =>
        w.isPrefixOf (0x0A :: r)) = some [0x0A] := rfl
    rw [List.replicate_succ, List.cons_append, ← Nat.add_assoc]
    simp only [trimFront, hfind]
    exact ih

def Visible (b : UInt8) : Prop := 0x20 < b ∧ b < 0x7F

instance : DecidablePred Visible := fun b => inferInstanceAs (Decidable (0x20 < b ∧ b < 0x7F))

theorem whiteSpace_not_visible {b : UInt8} (hb : Visible b) :
    (∀ w ∈ whiteSpace, ∃ c t, w = c :: t ∧ c ≠ b) ∧
      ∀ w ∈ whiteSpace.map List.reverse, ∃ c t, w = c :: t ∧ c ≠ b := by
  have hne {c : UInt8} (hc : c ≤ 0x20 ∨ 0x7F ≤ c) : c ≠ b := by
    rintro rfl
    rcases hc with hc | hc
    · exact absurd hb.1 (UInt8.not_lt.mpr hc)
    · exact absurd hb.2 (UInt8.not_lt.mpr hc)
  have hhead {w : GoString} (hw : ∃ c ∈ w.head?, c ≤ 0x20 ∨ 0x7F ≤ c) :
      ∃ c t, w = c :: t ∧ c ≠ b := by
    cases w with
    | nil => simp at hw
    | cons c t => exact ⟨c, t, rfl, hne (by simpa using hw)⟩
  have hwords : ∀ ws ∈ [whiteSpace, whiteSpace.map List.reverse], ∀ w ∈ ws,
      ∃ c ∈ w.head?, c ≤ 0x20 ∨ 0x7F ≤ c := by
    decide +kernel
  exact ⟨fun w hw => hhead (hwords _ (by simp) w hw), fun w hw => hhead (hwords _ (by simp) w hw)⟩

theorem trimSpace_line {line : GoString} {first last : UInt8} (hfirst : line.head? = some first)
    (hlast : line.getLast? = some last) (hvisible : Visible first ∧ Visible last) (k : ℕ) :
    trimSpace (line ++ List.replicate k 0x0A) = line := by
  obtain ⟨s, hs⟩ := List.head?_eq_some_iff.mp hfirst
  obtain ⟨t, ht⟩ := List.getLast?_eq_some_iff.mp hlast
  have hfront (n : ℕ) : trimFront whiteSpace n (line ++ List.replicate k 0x0A) =
      line ++ List.replicate k 0x0A := by
    rw [hs, List.cons_append]
    exact trimFront_plain (whiteSpace_not_visible hvisible.1).1 n _
  have hback (n : ℕ) : trimFront (whiteSpace.map List.reverse) n line.reverse = line.reverse := by
    rw [ht, List.reverse_append, List.reverse_singleton, List.singleton_append]
    exact trimFront_plain (whiteSpace_not_visible hvisible.2).2 n _
  unfold trimSpace
  dsimp only
  rw [hfront, List.reverse_append, List.reverse_replicate, List.length_append,
    List.length_replicate, trimFront_newlines, hback, List.reverse_reverse]

theorem visible_of_digit {b : UInt8} (hb : isDigit b = true) : Visible b := by
  simp only [isDigit, Bool.and_eq_true, decide_eq_true_eq] at hb
  obtain ⟨hlow, hhigh⟩ := hb
  have hlow' : (0x20 : UInt8) < 0x30 := by decide
  have hhigh' : (0x39 : UInt8) < 0x7F := by decide
  exact ⟨UInt8.lt_of_lt_of_le hlow' hlow, UInt8.lt_of_le_of_lt hhigh hhigh'⟩

theorem formatNat_head (n : ℕ) : ∃ d, (formatNat n).head? = some d ∧ Visible d := by
  have hne := formatNat_ne_nil n
  refine ⟨_, List.head?_eq_some_head hne, ?_⟩
  apply visible_of_digit
  exact formatNat_digits n _ (List.head_mem hne)

theorem trimSpace_numbered {first : UInt8} {front : GoString} {m : ℕ} {line : GoString}
    (hline : line = front ++ formatNat m) (hfirst : line.head? = some first)
    (hvisible : Visible first) (k : ℕ) :
    trimSpace (line ++ List.replicate k 0x0A) = line := by
  have hne := formatNat_ne_nil m
  have hlast : line.getLast? = some ((formatNat m).getLast hne) := by
    rw [hline, List.getLast?_append_of_ne_nil _ hne, List.getLast?_eq_some_getLast hne]
  apply trimSpace_line hfirst hlast
  refine ⟨hvisible, ?_⟩
  apply visible_of_digit
  exact formatNat_digits m _ (List.getLast_mem hne)

/-! ### Fields -/

/-- The fields of `s`, the current one being `field`. -/
def fieldsFrom (sep : UInt8 → Bool) (field : GoString) : GoString → List GoString
  | [] => if field = [] then [] else [field]
  | b :: s =>
    if sep b then
      if field = [] then fieldsFrom sep [] s else field :: fieldsFrom sep [] s
    else fieldsFrom sep (field ++ [b]) s

/-- `strings.FieldsFunc`, for a function that holds of everything but ASCII. -/
def fieldsFunc (s : GoString) (sep : UInt8 → Bool) : List GoString := fieldsFrom sep [] s

section

variable {sep : UInt8 → Bool} {field : GoString} {c : UInt8}

theorem fieldsFrom_append (hfield : ∀ b ∈ field, sep b = false) (start s : GoString) :
    fieldsFrom sep start (field ++ s) = fieldsFrom sep (start ++ field) s := by
  induction field generalizing start with
  | nil => simp
  | cons b field ih =>
    obtain ⟨hb, hrest⟩ := List.forall_mem_cons.mp hfield
    simp only [List.cons_append, fieldsFrom, hb, Bool.false_eq_true, if_false]
    rw [ih hrest, List.append_assoc, List.singleton_append]

theorem fieldsFunc_field (hne : field ≠ []) (hfield : ∀ b ∈ field, sep b = false)
    (hc : sep c = true) (s : GoString) :
    fieldsFunc (field ++ c :: s) sep = field :: fieldsFunc s sep := by
  unfold fieldsFunc
  rw [fieldsFrom_append hfield]
  simp [fieldsFrom, hc, hne]

theorem fieldsFunc_last (hne : field ≠ []) (hfield : ∀ b ∈ field, sep b = false) :
    fieldsFunc field sep = [field] := by
  have h := fieldsFrom_append hfield [] []
  rw [List.append_nil] at h
  simp [fieldsFunc, h, fieldsFrom, hne]

theorem fieldsFunc_sep (hc : sep c = true) (s : GoString) :
    fieldsFunc (c :: s) sep = fieldsFunc s sep := by
  simp [fieldsFunc, fieldsFrom, hc]

end

/-- The fields of `s`, the current one being `field`, in at most `n` steps. -/
def fieldsAux : ℕ → GoString → GoString → List GoString
  | 0, field, _ => if field = [] then [] else [field]
  | n + 1, field, s =>
    match whiteSpace.find? fun w => w.isPrefixOf s with
    | some w =>
      let rest := fieldsAux n [] (s.drop w.length)
      if field = [] then rest else field :: rest
    | none =>
      match s with
      | [] => if field = [] then [] else [field]
      | b :: s => fieldsAux n (field ++ [b]) s

/-- `strings.Fields` -/
def fields (s : GoString) : List GoString := fieldsAux s.length [] s

theorem fieldsAux_visible {word : GoString} (hword : ∀ b ∈ word, Visible b) (n : ℕ)
    (field s : GoString) :
    fieldsAux (word.length + n) field (word ++ s) = fieldsAux n (field ++ word) s := by
  induction word generalizing field with
  | nil => simp
  | cons b word ih =>
    obtain ⟨hb, hword⟩ := List.forall_mem_cons.mp hword
    have hnone : (whiteSpace.find? fun w => w.isPrefixOf (b :: (word ++ s))) = none := by
      apply List.find?_eq_none.mpr
      intro w hw
      obtain ⟨c, t, rfl, hc⟩ := (whiteSpace_not_visible hb).1 w hw
      simp [List.isPrefixOf, hc]
    rw [List.length_cons, Nat.add_right_comm, List.cons_append, fieldsAux]
    simp only [hnone]
    rw [ih hword, List.append_assoc, List.singleton_append]

/-- The text is empty or starts with a blank. -/
def Blank (s : GoString) : Prop := s = [] ∨ ∃ t, s = 0x20 :: t

theorem fields_first {word rest : GoString} (hne : word ≠ []) (hword : ∀ b ∈ word, Visible b)
    (hrest : Blank rest) : (fields (word ++ rest)).head? = some word := by
  rw [fields, List.length_append, fieldsAux_visible hword, List.nil_append]
  rcases hrest with rfl | ⟨t, rfl⟩
  · simp [fieldsAux, hne]
  · have hfind : (whiteSpace.find? fun w => w.isPrefixOf (0x20 :: t)) = some [0x20] := rfl
    simp [fieldsAux, hfind, hne]

/-! ### The first word -/

theorem splitOn_head (c : UInt8) (s : GoString) :
    (s.splitOn c).head? = some (s.takeWhile (· ≠ c)) := by
  induction s with
  | nil => rfl
  | cons b s ih =>
    rw [List.splitOn, List.splitOnP_cons_eq_if_modifyHead]
    by_cases hb : b = c
    · simp [hb]
    · have hne : (b == c) = false := by simpa using hb
      rw [List.splitOn] at ih
      obtain ⟨rest, hrest⟩ := List.head?_eq_some_iff.mp ih
      simp [hne, hb, hrest]

/-- Removing white space does not reach behind a visible byte. -/
theorem trimFront_visible {b : UInt8} (hb : Visible b) (n : ℕ) (s t : GoString) :
    ∃ s', s' <:+ s ∧ trimFront (whiteSpace.map List.reverse) n (s ++ b :: t) = s' ++ b :: t := by
  induction n generalizing s with
  | zero => exact ⟨s, List.suffix_rfl, rfl⟩
  | succ n ih =>
    cases hfind : (whiteSpace.map List.reverse).find? fun w => w.isPrefixOf (s ++ b :: t) with
    | none => exact ⟨s, List.suffix_rfl, by simp only [trimFront, hfind]⟩
    | some w =>
      have hspace : ∀ w ∈ whiteSpace.map List.reverse, ∀ c ∈ w, ¬ Visible c := by
        decide +kernel
      have hw := hspace w (List.mem_of_find?_eq_some hfind)
      obtain ⟨v, hv⟩ : w <+: s ++ b :: t := by simpa using List.find?_some hfind
      have hwithin : w <+: s := by
        rcases List.append_eq_append_iff.mp hv with ⟨u, hs, -⟩ | ⟨u, hu, hut⟩
        · exact ⟨u, hs.symm⟩
        · cases u with
          | nil => exact ⟨[], by rw [hu, List.append_nil, List.append_nil]⟩
          | cons c u =>
            obtain rfl : b = c := (List.cons.inj hut).1
            exact absurd hb (hw b (by simp [hu]))
      obtain ⟨s₁, rfl⟩ := hwithin
      obtain ⟨s', hs', heq⟩ := ih s₁
      refine ⟨s', hs'.trans (List.suffix_append w s₁), ?_⟩
      simp only [trimFront, hfind]
      rw [List.append_assoc, List.drop_left]
      exact heq

/-- Trimming leaves a visible word at the start of a text in place. -/
theorem trimSpace_word {word rest : GoString} (hne : word ≠ []) (hword : ∀ b ∈ word, Visible b)
    (hrest : Blank rest) : ∃ rest', Blank rest' ∧ trimSpace (word ++ rest) = word ++ rest' := by
  obtain ⟨first, tail, rfl⟩ := List.exists_cons_of_ne_nil hne
  have hfront (n : ℕ) : trimFront whiteSpace n (first :: tail ++ rest) = first :: tail ++ rest := by
    rw [List.cons_append]
    exact trimFront_plain (whiteSpace_not_visible (hword first (List.mem_cons_self ..))).1 n _
  obtain ⟨front, last, hlast⟩ : ∃ front last, first :: tail = front ++ [last] :=
    ⟨_, _, (List.dropLast_append_getLast hne).symm⟩
  have hvisible : Visible last := hword last (by simp [hlast])
  obtain ⟨s', hs', htrim⟩ := trimFront_visible hvisible (first :: tail ++ rest).length
    rest.reverse front.reverse
  refine ⟨s'.reverse, ?_, ?_⟩
  · have hstart : s'.reverse <+: rest := by
      rw [← List.reverse_suffix, List.reverse_reverse]
      exact hs'
    rcases hrest with rfl | ⟨t, rfl⟩
    · exact Or.inl (List.prefix_nil.mp hstart)
    · cases hs'' : s'.reverse with
      | nil => exact Or.inl rfl
      | cons c u =>
        rw [hs''] at hstart
        exact Or.inr ⟨u, by rw [(List.cons_prefix_cons.mp hstart).1]⟩
  · have hreverse : (first :: tail ++ rest).reverse = rest.reverse ++ last :: front.reverse := by
      simp [hlast]
    unfold trimSpace
    dsimp only
    rw [hfront, hreverse, htrim, hlast]
    simp

/-- `strings.SplitN` into two, as the parts before and after `sep`. -/
def splitTwo (sep : GoString) : GoString → Option (GoString × GoString)
  | [] => if sep = [] then some ([], []) else none
  | b :: s =>
    if sep.isPrefixOf (b :: s) then some ([], (b :: s).drop sep.length)
    else (splitTwo sep s).map fun parts => (b :: parts.1, parts.2)

theorem splitTwo_append {sep : GoString} (hsep : sep ≠ []) (s : GoString) :
    splitTwo sep (sep ++ s) = some ([], s) := by
  obtain ⟨b, sep, rfl⟩ := List.exists_cons_of_ne_nil hsep
  have hstart : (b :: sep).isPrefixOf (b :: (sep ++ s)) = true := by
    rw [List.isPrefixOf_iff_prefix]
    exact List.prefix_append (b :: sep) s
  rw [List.cons_append, splitTwo, if_pos hstart, ← List.cons_append, List.drop_left]

end Patchli.Text
