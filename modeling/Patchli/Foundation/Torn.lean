import Patchli.Foundation.Json

/-!
# Texts that were cut off

The first part of an encoded object or array is no JSON text, wherever the text was cut off. An
encoder that is interrupted leaves nothing behind that a decoder takes for another value.
-/

namespace Patchli

/-- A first part of a text, but not the whole. -/
def Torn {α : Type} (p text : List α) : Prop := p <+: text ∧ p ≠ text

theorem torn_append {α : Type} {p a b : List α} (h : Torn p (a ++ b)) :
    Torn p a ∨ ∃ p', p = a ++ p' ∧ Torn p' b := by
  obtain ⟨⟨q, hq⟩, hne⟩ := h
  rcases List.append_eq_append_iff.mp hq with ⟨d, hd, -⟩ | ⟨d, hd, hrest⟩
  · by_cases hnil : d = []
    · rw [hnil, List.append_nil] at hd
      refine Or.inr ⟨[], by rw [List.append_nil, hd], List.nil_prefix, ?_⟩
      rintro rfl
      exact hne (by rw [List.append_nil, hd])
    · refine Or.inl ⟨⟨d, hd.symm⟩, ?_⟩
      rintro rfl
      exact hnil (List.self_eq_append_right.mp hd)
  · refine Or.inr ⟨d, hd, ⟨q, hrest.symm⟩, ?_⟩
    rintro rfl
    exact hne hd

theorem torn_cons {α : Type} {p text : List α} {c : α} (h : Torn p (c :: text)) :
    p = [] ∨ ∃ p', p = c :: p' ∧ Torn p' text := by
  obtain ⟨hstart, hne⟩ := h
  cases p with
  | nil => exact Or.inl rfl
  | cons b p =>
    obtain ⟨rfl, htail⟩ := List.cons_prefix_cons.mp hstart
    refine Or.inr ⟨p, rfl, htail, ?_⟩
    rintro rfl
    exact hne rfl

@[elab_as_elim]
theorem torn_cases {α : Type} {motive : List α → Prop} {p text : List α} {c : α}
    (h : Torn p (c :: text)) (nil : motive []) (cons : ∀ p, Torn p text → motive (c :: p)) :
    motive p := by
  rcases torn_cons h with rfl | ⟨p', rfl, htail⟩
  · exact nil
  · exact cons p' htail

theorem not_torn_nil {α : Type} {p : List α} : ¬ Torn p [] :=
  fun h => h.2 (List.prefix_nil.mp h.1)

namespace Json

open Utf8 Decimal

/-! ### Strings -/

theorem unquoteBody_nil : unquoteBody [] = none := rfl

theorem unquoteBody_torn_escape {p : GoString} {c : UInt8} (h : Torn p [0x5C, c]) :
    unquoteBody p = none := by
  refine torn_cases h rfl fun p h => ?_
  refine torn_cases h rfl fun p h => ?_
  exact absurd h not_torn_nil

theorem unquoteBody_torn_unit {p : GoString} {a b c d : UInt8}
    (h : Torn p [0x5C, 0x75, a, b, c, d]) : unquoteBody p = none := by
  refine torn_cases h rfl fun p h => ?_
  refine torn_cases h rfl fun p h => ?_
  refine torn_cases h rfl fun p h => ?_
  refine torn_cases h rfl fun p h => ?_
  refine torn_cases h rfl fun p h => ?_
  refine torn_cases h rfl fun p h => ?_
  exact absurd h not_torn_nil

theorem unquoteBody_torn_raw {p bs : GoString} (hbs : ∀ b ∈ bs, 0x80 ≤ b) (h : Torn p bs) :
    unquoteBody p = none := by
  have hp : ∀ b ∈ p, 0x80 ≤ b := fun b hb => hbs b (h.1.subset hb)
  have hraw := unquoteBody_raw hp []
  rw [List.append_nil, unquoteBody_nil] at hraw
  exact hraw

theorem unquoteBody_torn_byte {p : GoString} {b : UInt8} (h : Torn p (quoteByte b)) :
    unquoteBody p = none := by
  unfold quoteByte at h
  split at h
  · exact unquoteBody_torn_escape h
  · split at h
    · exact unquoteBody_torn_unit h
    · refine torn_cases h rfl fun p h => ?_
      exact absurd h not_torn_nil

theorem unquoteBody_torn_char {p rest : GoString} {b : UInt8} {k : ℕ}
    (hsize : runeSize (b :: rest) = k + 1) (h : Torn p (quoteSegment (.char (b :: rest.take k)))) :
    unquoteBody p = none := by
  cases k with
  | zero => exact unquoteBody_torn_byte h
  | succ k =>
    have hhigh := high_of_runeSize hsize
    have hlength := take_length_of_runeSize hsize
    cases htake : rest.take (k + 1) with
    | nil => simp [htake] at hlength
    | cons c cs =>
      rw [htake] at hhigh h
      simp only [quoteSegment] at h
      split at h
      · exact unquoteBody_torn_unit h
      · split at h
        · exact unquoteBody_torn_unit h
        · exact unquoteBody_torn_raw hhigh h

/-- Without its quotation mark a literal does not end. -/
theorem unquoteBody_prefix {p s : GoString} (h : p <+: quoteBody s) : unquoteBody p = none := by
  have hstep {seg rest : GoString} (htorn : ∀ p, Torn p seg → unquoteBody p = none)
      (hseg : ∀ r, unquoteBody r = none → unquoteBody (seg ++ r) = none)
      (hrest : ∀ p, p <+: rest → unquoteBody p = none) (p : GoString) (h : p <+: seg ++ rest) :
      unquoteBody p = none := by
    by_cases heq : p = seg ++ rest
    · rw [heq]
      exact hseg rest (hrest rest List.prefix_rfl)
    · rcases torn_append ⟨h, heq⟩ with hp | ⟨p', rfl, hp'⟩
      · exact htorn p hp
      · exact hseg p' (hrest p' hp'.1)
  unfold quoteBody at h
  induction s using segments_induction generalizing p with
  | nil =>
    rw [List.prefix_nil.mp h]
    rfl
  | invalid b rest hsize ih =>
    have htext : quoteSegment (.invalid b) = [0x5C, 0x75, 0x66, 0x66, 0x66, 0x64] := by
      change ascii "\\ufffd" = _
      decide
    have hrune : encodeRune 0xFFFD = replacement := by decide
    rw [segments_invalid hsize, List.flatMap_cons, htext] at h
    refine hstep (fun p hp => unquoteBody_torn_unit hp) (fun r hr => ?_) (fun p hp => ih hp) p h
    rw [unquoteBody_unit (by decide) (by decide) hrune, hr]
    rfl
  | char b rest k hsize ih =>
    rw [segments_char hsize, List.flatMap_cons] at h
    refine hstep (fun p hp => unquoteBody_torn_char hsize hp) (fun r hr => ?_) (fun p hp => ih hp) p
      h
    rw [unquoteBody_quoteSegment hsize, hr]
    rfl

theorem unquote_torn {p s : GoString} (h : Torn p (quote s)) : unquote p = none := by
  refine torn_cases h rfl fun p h => ?_
  have hstart : p <+: quoteBody s := by
    rcases torn_append h with hp | ⟨p', rfl, hp'⟩
    · exact hp.1
    · refine torn_cases hp' ?_ fun p'' h => absurd h not_torn_nil
      rw [List.append_nil]
  rw [unquote, unquoteBody_prefix hstart]
  rfl

theorem parseKey_torn {p key : GoString} (h : Torn p (quote key ++ [0x3A])) :
    parseKey p = none := by
  rcases torn_append h with hp | ⟨p', rfl, hp'⟩
  · have hspace : skipSpace p = p :=
      torn_cases hp rfl fun p' _ => skipSpace_cons (by decide)
    rw [parseKey, hspace, unquote_torn hp]
    rfl
  · refine torn_cases hp' ?_ fun p'' h => absurd h not_torn_nil
    have hspace : skipSpace (quote key ++ []) = quote key ++ [] := skipSpace_cons (by decide)
    rw [parseKey, hspace, unquote_quote]
    rfl

/-! ### Values -/

theorem not_isSpace_of_isDigit {b : UInt8} (h : isDigit b = true) : isSpace b = false := by
  simp only [isDigit, Bool.and_eq_true, decide_eq_true_eq] at h
  simp only [isSpace]
  grind

/-- The rest of a number that was cut off ends no array and no object. -/
theorem parse_digits {r : GoString} (hr : ∀ b ∈ r, isDigit b = true) (n : ℕ) :
    parseElements n r = none ∧ parseMembers n r = none := by
  cases n with
  | zero => exact ⟨rfl, rfl⟩
  | succ n =>
    cases r with
    | nil => exact ⟨rfl, rfl⟩
    | cons d r =>
      have hd := hr d List.mem_cons_self
      have hne (c : UInt8) (hc : isDigit c = false) : d ≠ c := by
        rintro rfl
        rw [hc] at hd
        cases hd
      simp only [parseElements, parseMembers, skipSpace_cons (not_isSpace_of_isDigit hd)]
      simp [hne 0x5D (by decide), hne 0x2C (by decide), hne 0x7D (by decide)]

theorem scan_digits {r : GoString} (hr : ∀ b ∈ r, isDigit b = true) :
    scanFraction r = some ([], r) ∧ scanExponent r = some ([], r) := by
  cases r with
  | nil => exact ⟨rfl, rfl⟩
  | cons d r =>
    have hd := hr d List.mem_cons_self
    have hne (c : UInt8) (hc : isDigit c = false) : d ≠ c := by
      rintro rfl
      rw [hc] at hd
      cases hd
    simp [scanFraction, scanExponent, hne 0x2E (by decide), hne 0x65 (by decide),
      hne 0x45 (by decide)]

theorem scanUnsigned_digits {ds : GoString} (hds : ∀ b ∈ ds, isDigit b = true) :
    scanUnsigned ds = none ∨
      ∃ t r, scanUnsigned ds = some (t, r) ∧ ∀ b ∈ r, isDigit b = true := by
  cases ds with
  | nil => exact Or.inl rfl
  | cons d ds =>
    have htail : ∀ b ∈ ds, isDigit b = true := fun b hb => hds b (List.mem_cons_of_mem _ hb)
    have hinteger : ∃ t r, scanInteger (d :: ds) = some (t, r) ∧ ∀ b ∈ r, isDigit b = true := by
      by_cases hzero : d = 0x30
      · exact ⟨[d], ds, by simp [scanInteger, hzero], htail⟩
      · refine ⟨d :: (spanDigits ds).1, (spanDigits ds).2, ?_, ?_⟩
        · simp [scanInteger, hzero, hds d List.mem_cons_self]
        · exact fun b hb => htail b ((List.dropWhile_sublist isDigit).subset hb)
    obtain ⟨t, r, hscan, hr⟩ := hinteger
    obtain ⟨hfraction, hexponent⟩ := scan_digits hr
    refine Or.inr ⟨t ++ [] ++ [], r, ?_, hr⟩
    simp [scanUnsigned, hscan, hfraction, hexponent]

theorem scanNumber_prefix {p : GoString} {i : ℤ} (h : p <+: formatInt i) :
    scanNumber p = none ∨ ∃ t r, scanNumber p = some (t, r) ∧ ∀ b ∈ r, isDigit b = true := by
  have hdigits := formatNat_digits i.natAbs
  unfold formatInt at h
  split at h
  · cases p with
    | nil => exact Or.inl rfl
    | cons b p =>
      obtain ⟨rfl, htail⟩ := List.cons_prefix_cons.mp h
      rcases scanUnsigned_digits fun b hb => hdigits b (htail.subset hb) with hnone | ⟨t, r, hsome, hr⟩
      · simp [scanNumber, hnone]
      · exact Or.inr ⟨0x2D :: t, r, by simp [scanNumber, hsome], hr⟩
  · cases p with
    | nil => exact Or.inl rfl
    | cons b p =>
      have hb := hdigits b (h.subset List.mem_cons_self)
      have hminus : b ≠ 0x2D := by
        rintro rfl
        cases hb
      rw [scanNumber, if_neg hminus]
      exact scanUnsigned_digits fun b hb => hdigits b (h.subset hb)

/-- The end of a value is missing: it does not parse, or only digits are left of a number. -/
def Unfinished (o : Option (Value × GoString)) : Prop :=
  o = none ∨ ∃ text r, o = some (.number text, r) ∧ ∀ b ∈ r, isDigit b = true

theorem parseValue_torn_literal {p : GoString}
    (h : Torn p (ascii "null") ∨ Torn p (ascii "true") ∨ Torn p (ascii "false")) (n : ℕ) :
    parseValue n p = none := by
  have hnull : ascii "null" = [0x6E, 0x75, 0x6C, 0x6C] := by decide
  have htrue : ascii "true" = [0x74, 0x72, 0x75, 0x65] := by decide
  have hfalse : ascii "false" = [0x66, 0x61, 0x6C, 0x73, 0x65] := by decide
  rw [hnull, htrue, hfalse] at h
  cases n with
  | zero => rfl
  | succ n =>
    rcases h with h | h | h
    · refine torn_cases h rfl fun p h => ?_
      refine torn_cases h rfl fun p h => ?_
      refine torn_cases h rfl fun p h => ?_
      refine torn_cases h rfl fun p h => ?_
      exact absurd h not_torn_nil
    · refine torn_cases h rfl fun p h => ?_
      refine torn_cases h rfl fun p h => ?_
      refine torn_cases h rfl fun p h => ?_
      refine torn_cases h rfl fun p h => ?_
      exact absurd h not_torn_nil
    · refine torn_cases h rfl fun p h => ?_
      refine torn_cases h rfl fun p h => ?_
      refine torn_cases h rfl fun p h => ?_
      refine torn_cases h rfl fun p h => ?_
      refine torn_cases h rfl fun p h => ?_
      exact absurd h not_torn_nil

theorem parseValue_torn_number {p : GoString} {i : ℤ} (h : p <+: formatInt i) (n : ℕ) :
    Unfinished (parseValue n p) := by
  cases n with
  | zero => exact Or.inl rfl
  | succ n =>
    cases p with
    | nil => exact Or.inl rfl
    | cons b p =>
      obtain ⟨c, r, hcr, hc⟩ := formatInt_cons i
      have hscan := scanNumber_prefix h
      rw [hcr] at h
      obtain ⟨rfl, -⟩ := List.cons_prefix_cons.mp h
      have hne (d : UInt8) (hd : d ≠ 0x2D ∧ isDigit d = false) : b ≠ d := ne_of_number hc hd
      have hspace : isSpace b = false := by
        simp [isSpace, hne 0x20 (by decide), hne 0x09 (by decide), hne 0x0A (by decide),
          hne 0x0D (by decide)]
      have hparse : parseValue (n + 1) (b :: p) =
          (scanNumber (b :: p)).map fun p => (.number p.1, p.2) := by
        simp [parseValue, skipSpace_cons hspace, hne 0x22 (by decide), hne 0x5B (by decide),
          hne 0x7B (by decide), hne 0x6E (by decide), hne 0x74 (by decide), hne 0x66 (by decide)]
      rw [hparse]
      rcases hscan with hnone | ⟨t, r, hsome, hr⟩
      · exact Or.inl (by rw [hnone]; rfl)
      · exact Or.inr ⟨t, r, by rw [hsome]; rfl, hr⟩

/-- What follows an element or a member that was cut off is missing too. -/
theorem unfinished_bind {o : Option (Value × GoString)} {α : Type}
    {f : Value × GoString → Option α} (ho : Unfinished o)
    (hf : ∀ v r, (∀ b ∈ r, isDigit b = true) → f (v, r) = none) : o.bind f = none := by
  rcases ho with rfl | ⟨text, r, rfl, hr⟩
  · rfl
  · exact hf _ _ hr

theorem delimited_torn {p : GoString} {c : UInt8} {text : GoString} (h : Torn p (c :: text))
    (hc : isDigit c = false ∧ c ≠ 0x2E ∧ c ≠ 0x65 ∧ c ≠ 0x45) : Delimited p :=
  torn_cases h delimited_nil fun _ _ => delimited_cons hc

theorem renderElements_cons (xs : List Value) : ∃ c text, renderElements xs = c :: text ∧
    (isDigit c = false ∧ c ≠ 0x2E ∧ c ≠ 0x65 ∧ c ≠ 0x45) := by
  cases xs with
  | nil => exact ⟨_, _, rfl, by decide⟩
  | cons x xs => exact ⟨_, _, rfl, by decide⟩

theorem renderMembers_cons (fs : List (GoString × Value)) : ∃ c text, renderMembers fs = c :: text ∧
    (isDigit c = false ∧ c ≠ 0x2E ∧ c ≠ 0x65 ∧ c ≠ 0x45) := by
  cases fs with
  | nil => exact ⟨_, _, rfl, by decide⟩
  | cons f fs => exact ⟨_, _, rfl, by decide⟩

/-- A text that begins like a value does not close the bracket before it. -/
theorem expect_torn {p : GoString} {v : Value} {b : UInt8} (hv : Integral v)
    (h : Torn p (render v)) (hb : b = 0x5D ∨ b = 0x7D) : expect [b] (skipSpace p) = none := by
  obtain ⟨c, text, hc, hspace, harray, hobject⟩ := render_cons hv
  rw [hc] at h
  refine torn_cases h rfl fun p _ => ?_
  rw [skipSpace_cons hspace]
  rcases hb with rfl | rfl
  · simp [expect, Ne.symm harray]
  · simp [expect, Ne.symm hobject]

theorem parseMember_torn {α : Type} {key p : GoString} {v : Value} {fs : List (GoString × Value)}
    {n : ℕ} {f : GoString → Value → GoString → Option α} (hv : Integral v)
    (hvalue : ∀ q, q.length ≤ n → Torn q (render v) → Unfinished (parseValue n q))
    (hmembers : ∀ q, q.length ≤ n → Torn q (renderMembers fs) → ∀ key v, f key v q = none)
    (hdigits : ∀ r, (∀ b ∈ r, isDigit b = true) → ∀ key v, f key v r = none)
    (hn : p.length ≤ n) (h : Torn p (quote key ++ 0x3A :: (render v ++ renderMembers fs))) :
    ((parseKey p).bind fun (key, r) => (parseValue n r).bind fun (v, r) => f key v r) = none := by
  have htext : quote key ++ 0x3A :: (render v ++ renderMembers fs) =
      (quote key ++ [0x3A]) ++ (render v ++ renderMembers fs) := by
    rw [List.append_assoc]
    rfl
  rw [htext] at h
  rcases torn_append h with hkey | ⟨q, rfl, hq⟩
  · rw [parseKey_torn hkey]
    rfl
  rw [List.length_append] at hn
  have hparse : parseKey (quote key ++ [0x3A] ++ q) = some (toValid key, q) := by
    rw [List.append_assoc]
    exact parseKey_quote key q
  rw [hparse, Option.bind_some]
  dsimp only
  rcases torn_append hq with hx | ⟨q, rfl, hfs⟩
  · exact unfinished_bind (hvalue q (by omega) hx) fun v r hr => hdigits r hr _ _
  · obtain ⟨c, text, hc, hdelimiter⟩ := renderMembers_cons fs
    have hdelimited : Delimited q := delimited_torn (hc ▸ hfs) hdelimiter
    rw [List.length_append, List.length_append] at hn
    rw [parseValue_render v n q hv (by omega) hdelimited, Option.bind_some]
    exact hmembers q (by omega) hfs _ _

theorem expect_torn_quote {p key rest : GoString} (h : Torn p (quote key ++ rest)) :
    expect [0x7D] (skipSpace p) = none := by
  rw [quote, List.cons_append] at h
  refine torn_cases h rfl fun p _ => ?_
  rw [skipSpace_cons (by decide)]
  rfl

mutual

theorem parseValue_torn : ∀ (v : Value) (n : ℕ) (p : GoString), Integral v → p.length ≤ n →
    Torn p (render v) → Unfinished (parseValue n p)
  | _, 0, _, _, _, _ => Or.inl rfl
  | .null, n + 1, p, _, _, h => Or.inl (parseValue_torn_literal (Or.inl h) _)
  | .bool true, n + 1, p, _, _, h => Or.inl (parseValue_torn_literal (Or.inr (Or.inl h)) _)
  | .bool false, n + 1, p, _, _, h => Or.inl (parseValue_torn_literal (Or.inr (Or.inr h)) _)
  | .number text, n + 1, p, hv, _, h => by
    obtain ⟨i, rfl⟩ : ∃ i : ℤ, text = formatInt i := by simpa [Integral] using hv
    exact parseValue_torn_number h.1 _
  | .string s, n + 1, p, _, _, h => by
    left
    have hunquote := unquote_torn h
    refine torn_cases (motive := fun p => unquote p = none → parseValue (n + 1) p = none) h
      (fun _ => rfl) (fun p _ hp => ?_) hunquote
    simp only [parseValue, skipSpace_cons (b := 0x22) (by decide), if_true, hp, Option.map_none]
  | .array xs, n + 1, p, hv, hn, h => Or.inl (parseArray_torn xs n p hv hn h)
  | .object fs, n + 1, p, hv, hn, h => Or.inl (parseObject_torn fs n p hv hn h)

theorem parseArray_torn : ∀ (xs : List Value) (n : ℕ) (p : GoString), IntegralElements xs →
    p.length ≤ n + 1 → Torn p (render (.array xs)) → parseValue (n + 1) p = none
  | [], n, p, _, _, h => by
    refine torn_cases h rfl fun p h => ?_
    refine torn_cases h ?_ fun p h => absurd h not_torn_nil
    cases n <;> rfl
  | x :: xs, n, p, hv, hn, h => by
    simp only [IntegralElements] at hv
    simp only [render] at h
    rcases torn_cons h with rfl | ⟨p, rfl, htail⟩
    · rfl
    simp only [List.length_cons, Nat.add_le_add_iff_right] at hn
    have hopen : parseValue (n + 1) (0x5B :: p) =
        match expect [0x5D] (skipSpace p) with
        | some r => some (.array [], r)
        | none => (parseValue n p).bind fun (x, r) =>
            (parseElements n r).map fun (xs, r) => (.array (x :: xs), r) := by
      simp only [parseValue, skipSpace_cons (b := 0x5B) (by decide)]
      rfl
    rcases torn_append htail with hx | ⟨q, rfl, hq⟩
    · rw [hopen, expect_torn hv.1 hx (Or.inl rfl)]
      refine unfinished_bind (parseValue_torn x n p hv.1 hn hx) fun v r hr => ?_
      simp [(parse_digits hr n).1]
    · obtain ⟨c, text, hc, hdelimiter⟩ := renderElements_cons xs
      have hdelimited : Delimited q := delimited_torn (hc ▸ hq) hdelimiter
      rw [List.length_append] at hn
      have hx := parseValue_render x n q hv.1 (by omega) hdelimited
      have hxs := parseElements_torn xs n q hv.2 (by omega) hq
      rw [hopen, expect_close hv.1, hx]
      simp [hxs]

theorem parseElements_torn : ∀ (xs : List Value) (n : ℕ) (p : GoString), IntegralElements xs →
    p.length ≤ n → Torn p (renderElements xs) → parseElements n p = none
  | _, 0, _, _, _, _ => rfl
  | [], n + 1, p, _, _, h => by
    refine torn_cases h rfl fun p h => absurd h not_torn_nil
  | x :: xs, n + 1, p, hv, hn, h => by
    simp only [IntegralElements] at hv
    simp only [renderElements] at h
    rcases torn_cons h with rfl | ⟨p, rfl, htail⟩
    · rfl
    simp only [List.length_cons, Nat.add_le_add_iff_right] at hn
    have hopen : parseElements (n + 1) (0x2C :: p) =
        (parseValue n p).bind fun (x, r) =>
          (parseElements n r).map fun (xs, r) => (x :: xs, r) := by
      simp only [parseElements, skipSpace_cons (b := 0x2C) (by decide)]
      rfl
    rw [hopen]
    rcases torn_append htail with hx | ⟨q, rfl, hq⟩
    · refine unfinished_bind (parseValue_torn x n p hv.1 hn hx) fun v r hr => ?_
      simp [(parse_digits hr n).1]
    · obtain ⟨c, text, hc, hdelimiter⟩ := renderElements_cons xs
      have hdelimited : Delimited q := delimited_torn (hc ▸ hq) hdelimiter
      rw [List.length_append] at hn
      have hx := parseValue_render x n q hv.1 (by omega) hdelimited
      have hxs := parseElements_torn xs n q hv.2 (by omega) hq
      rw [hx]
      simp [hxs]

theorem parseObject_torn : ∀ (fs : List (GoString × Value)) (n : ℕ) (p : GoString),
    IntegralMembers fs → p.length ≤ n + 1 → Torn p (render (.object fs)) →
    parseValue (n + 1) p = none
  | [], n, p, _, _, h => by
    refine torn_cases h rfl fun p h => ?_
    refine torn_cases h ?_ fun p h => absurd h not_torn_nil
    cases n <;> rfl
  | (key, v) :: fs, n, p, hv, hn, h => by
    simp only [IntegralMembers] at hv
    simp only [render] at h
    rcases torn_cons h with rfl | ⟨p, rfl, htail⟩
    · rfl
    simp only [List.length_cons, Nat.add_le_add_iff_right] at hn
    have hopen : parseValue (n + 1) (0x7B :: p) =
        (parseKey p).bind fun (key, r) => (parseValue n r).bind fun (v, r) =>
          (parseMembers n r).map fun (fs, r) => (.object ((key, v) :: fs), r) := by
      simp only [parseValue, skipSpace_cons (b := 0x7B) (by decide), expect_torn_quote htail]
      rfl
    rw [hopen]
    refine parseMember_torn (f := fun key v r => (parseMembers n r).map fun (fs, r) =>
      (Value.object ((key, v) :: fs), r)) hv.1 (fun q hq => parseValue_torn v n q hv.1 hq) ?_ ?_ hn
      htail
    · intro q hq hfs _ _
      rw [parseMembers_torn fs n q hv.2 hq hfs]
      rfl
    · intro r hr _ _
      rw [(parse_digits hr n).2]
      rfl

theorem parseMembers_torn : ∀ (fs : List (GoString × Value)) (n : ℕ) (p : GoString),
    IntegralMembers fs → p.length ≤ n → Torn p (renderMembers fs) → parseMembers n p = none
  | _, 0, _, _, _, _ => rfl
  | [], n + 1, p, _, _, h => by
    refine torn_cases h rfl fun p h => absurd h not_torn_nil
  | (key, v) :: fs, n + 1, p, hv, hn, h => by
    simp only [IntegralMembers] at hv
    simp only [renderMembers] at h
    rcases torn_cons h with rfl | ⟨p, rfl, htail⟩
    · rfl
    simp only [List.length_cons, Nat.add_le_add_iff_right] at hn
    have hopen : parseMembers (n + 1) (0x2C :: p) =
        (parseKey p).bind fun (key, r) => (parseValue n r).bind fun (v, r) =>
          (parseMembers n r).map fun (fs, r) => ((key, v) :: fs, r) := by
      simp only [parseMembers, skipSpace_cons (b := 0x2C) (by decide)]
      rfl
    rw [hopen]
    refine parseMember_torn (f := fun key v r => (parseMembers n r).map fun (fs, r) =>
      ((key, v) :: fs, r)) hv.1 (fun q hq => parseValue_torn v n q hv.1 hq) ?_ ?_ hn htail
    · intro q hq hfs _ _
      rw [parseMembers_torn fs n q hv.2 hq hfs]
      rfl
    · intro r hr _ _
      rw [(parse_digits hr n).2]
      rfl

end

end Json

end Patchli
