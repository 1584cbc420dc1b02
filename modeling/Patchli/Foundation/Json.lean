import Patchli.Foundation.Decimal
import Patchli.Foundation.JsonString

/-!
# JSON texts

The compact encoder of `encoding/json` and its decoder, which takes any text. The
decoder's limit on nested values is left out. Decoding an encoded value replaces
the bytes of its strings that encode no character and changes nothing else.
-/

namespace Patchli.Json

open Utf8 Decimal

inductive Value
  | null
  | bool (b : Bool)
  | number (text : GoString)
  | string (s : GoString)
  | array (xs : List Value)
  | object (fs : List (GoString × Value))

mutual

/-- `json.Marshal`. -/
def render : Value → GoString
  | .null => ascii "null"
  | .bool b => if b then ascii "true" else ascii "false"
  | .number text => text
  | .string s => quote s
  | .array [] => [0x5B, 0x5D]
  | .array (x :: xs) => 0x5B :: (render x ++ renderElements xs)
  | .object [] => [0x7B, 0x7D]
  | .object ((key, v) :: fs) => 0x7B :: (quote key ++ 0x3A :: (render v ++ renderMembers fs))

/-- What follows an element of an array. -/
def renderElements : List Value → GoString
  | [] => [0x5D]
  | x :: xs => 0x2C :: (render x ++ renderElements xs)

def renderMembers : List (GoString × Value) → GoString
  | [] => [0x7D]
  | (key, v) :: fs => 0x2C :: (quote key ++ 0x3A :: (render v ++ renderMembers fs))

end

/-! ### Decoding -/

def isSpace (b : UInt8) : Bool := b = 0x20 || b = 0x09 || b = 0x0A || b = 0x0D

def skipSpace (s : GoString) : GoString := s.dropWhile isSpace

/-- What follows `w` at the start. -/
def expect (w s : GoString) : Option GoString :=
  if w.isPrefixOf s then some (s.drop w.length) else none

def spanDigits (s : GoString) : GoString × GoString := (s.takeWhile isDigit, s.dropWhile isDigit)

def scanInteger : GoString → Option (GoString × GoString)
  | [] => none
  | d :: r =>
    if d = 0x30 then some ([d], r)
    else if isDigit d then some (d :: (spanDigits r).1, (spanDigits r).2)
    else none

def scanDigits (start r : GoString) : Option (GoString × GoString) :=
  if (spanDigits r).1 = [] then none else some (start ++ (spanDigits r).1, (spanDigits r).2)

def scanFraction : GoString → Option (GoString × GoString)
  | [] => some ([], [])
  | b :: r => if b = 0x2E then scanDigits [b] r else some ([], b :: r)

def scanExponent : GoString → Option (GoString × GoString)
  | [] => some ([], [])
  | b :: r =>
    if b = 0x65 ∨ b = 0x45 then
      match r with
      | [] => none
      | c :: t => if c = 0x2B ∨ c = 0x2D then scanDigits [b, c] t else scanDigits [b] r
    else some ([], b :: r)

/-- A number without its sign. -/
def scanUnsigned (s : GoString) : Option (GoString × GoString) := do
  let (integer, r) ← scanInteger s
  let (fraction, r) ← scanFraction r
  let (exponent, r) ← scanExponent r
  return (integer ++ fraction ++ exponent, r)

/-- The number literal that starts here, and the rest. -/
def scanNumber : GoString → Option (GoString × GoString)
  | [] => none
  | b :: r =>
    if b = 0x2D then (scanUnsigned r).map fun p => (b :: p.1, p.2) else scanUnsigned (b :: r)

/-- The key of a member and what follows its colon. -/
def parseKey (s : GoString) : Option (GoString × GoString) :=
  (unquote (skipSpace s)).bind fun (key, r) =>
    (expect [0x3A] (skipSpace r)).map fun r => (key, r)

mutual

def parseValue : ℕ → GoString → Option (Value × GoString)
  | 0, _ => none
  | n + 1, s =>
    match skipSpace s with
    | [] => none
    | b :: r =>
      if b = 0x22 then (unquote (b :: r)).map fun p => (.string p.1, p.2)
      else if b = 0x5B then
        match expect [0x5D] (skipSpace r) with
        | some r => some (.array [], r)
        | none =>
          (parseValue n r).bind fun (x, r) =>
            (parseElements n r).map fun (xs, r) => (.array (x :: xs), r)
      else if b = 0x7B then
        match expect [0x7D] (skipSpace r) with
        | some r => some (.object [], r)
        | none =>
          (parseKey r).bind fun (key, r) =>
            (parseValue n r).bind fun (v, r) =>
              (parseMembers n r).map fun (fs, r) => (.object ((key, v) :: fs), r)
      else if b = 0x6E then (expect (ascii "null") (b :: r)).map fun r => (.null, r)
      else if b = 0x74 then (expect (ascii "true") (b :: r)).map fun r => (.bool true, r)
      else if b = 0x66 then (expect (ascii "false") (b :: r)).map fun r => (.bool false, r)
      else (scanNumber (b :: r)).map fun p => (.number p.1, p.2)

def parseElements : ℕ → GoString → Option (List Value × GoString)
  | 0, _ => none
  | n + 1, s =>
    match skipSpace s with
    | [] => none
    | b :: r =>
      if b = 0x5D then some ([], r)
      else if b = 0x2C then
        (parseValue n r).bind fun (x, r) =>
          (parseElements n r).map fun (xs, r) => (x :: xs, r)
      else none

def parseMembers : ℕ → GoString → Option (List (GoString × Value) × GoString)
  | 0, _ => none
  | n + 1, s =>
    match skipSpace s with
    | [] => none
    | b :: r =>
      if b = 0x7D then some ([], r)
      else if b = 0x2C then
        (parseKey r).bind fun (key, r) =>
          (parseValue n r).bind fun (v, r) =>
            (parseMembers n r).map fun (fs, r) => ((key, v) :: fs, r)
      else none

end

/-- The value of a whole text, as `json.Unmarshal` takes it. -/
def parse (s : GoString) : Option Value :=
  (parseValue s.length s).bind fun p => if skipSpace p.2 = [] then some p.1 else none

/-- The first value of a stream, as `json.Decoder` takes it. -/
def parseFirst (s : GoString) : Option Value := (parseValue s.length s).map Prod.fst

/-! ### Decoding what was encoded -/

mutual

/-- Every string with the bytes that encode nothing replaced. -/
def decoded : Value → Value
  | .string s => .string (toValid s)
  | .array xs => .array (decodedElements xs)
  | .object fs => .object (decodedMembers fs)
  | .null => .null
  | .bool b => .bool b
  | .number text => .number text

def decodedElements : List Value → List Value
  | [] => []
  | x :: xs => decoded x :: decodedElements xs

def decodedMembers : List (GoString × Value) → List (GoString × Value)
  | [] => []
  | (key, v) :: fs => (toValid key, decoded v) :: decodedMembers fs

end

mutual

/-- All numbers are integers. -/
def Integral : Value → Prop
  | .number text => ∃ i : ℤ, text = formatInt i
  | .array xs => IntegralElements xs
  | .object fs => IntegralMembers fs
  | .null | .bool _ | .string _ => True

def IntegralElements : List Value → Prop
  | [] => True
  | x :: xs => Integral x ∧ IntegralElements xs

def IntegralMembers : List (GoString × Value) → Prop
  | [] => True
  | (_, v) :: fs => Integral v ∧ IntegralMembers fs

end

theorem decodedElements_strings (ss : List GoString) :
    decodedElements (ss.map .string) = (ss.map toValid).map .string := by
  induction ss with
  | nil => rfl
  | cons s ss ih => simp [decodedElements, decoded, ih]

theorem decodedMembers_append (fs gs : List (GoString × Value)) :
    decodedMembers (fs ++ gs) = decodedMembers fs ++ decodedMembers gs := by
  induction fs with
  | nil => rfl
  | cons f fs ih => simp [decodedMembers, ih]

theorem integral_strings (ss : List GoString) : IntegralElements (ss.map .string) := by
  induction ss with
  | nil => trivial
  | cons s ss ih => exact ⟨trivial, ih⟩

theorem integralMembers_append {fs gs : List (GoString × Value)} (hfs : IntegralMembers fs)
    (hgs : IntegralMembers gs) : IntegralMembers (fs ++ gs) := by
  induction fs with
  | nil => exact hgs
  | cons f fs ih => exact ⟨hfs.1, ih hfs.2⟩

/-- What can follow a number. -/
def Delimited (r : GoString) : Prop :=
  ∀ b ∈ r.head?, isDigit b = false ∧ b ≠ 0x2E ∧ b ≠ 0x65 ∧ b ≠ 0x45

theorem delimited_nil : Delimited [] := nofun

theorem delimited_cons {b : UInt8} {r : GoString}
    (hb : isDigit b = false ∧ b ≠ 0x2E ∧ b ≠ 0x65 ∧ b ≠ 0x45) : Delimited (b :: r) := by
  rintro _ ⟨⟩
  exact hb

theorem skipSpace_cons {b : UInt8} {r : GoString} (hb : isSpace b = false) :
    skipSpace (b :: r) = b :: r := by
  simp [skipSpace, hb]

theorem spanDigits_append {ds r : GoString} (hds : ∀ b ∈ ds, isDigit b = true)
    (hr : Delimited r) : spanDigits (ds ++ r) = (ds, r) := by
  have hstop : r.takeWhile isDigit = [] ∧ r.dropWhile isDigit = r := by
    cases r with
    | nil => exact ⟨rfl, rfl⟩
    | cons b r =>
      have hb := (hr b rfl).1
      simp [hb]
  unfold spanDigits
  rw [List.takeWhile_append_of_pos hds, List.dropWhile_append_of_pos hds, hstop.1, hstop.2,
    List.append_nil]

theorem scanUnsigned_formatNat (n : ℕ) {r : GoString} (hr : Delimited r) :
    scanUnsigned (formatNat n ++ r) = some (formatNat n, r) := by
  obtain ⟨d, ds, hds, hzero⟩ := formatNat_cons n
  have hdigits := formatNat_digits n
  rw [hds] at hdigits
  have hinteger : scanInteger (d :: (ds ++ r)) = some (d :: ds, r) := by
    simp only [scanInteger]
    split
    · rename_i h0
      simp [h0, hzero h0]
    · rw [spanDigits_append (fun b hb => hdigits b (by simp [hb])) hr,
        if_pos (hdigits d (by simp))]
  have hfraction : scanFraction r = some ([], r) := by
    cases r with
    | nil => rfl
    | cons b r => simp [scanFraction, (hr b rfl).2.1]
  have hexponent : scanExponent r = some ([], r) := by
    cases r with
    | nil => rfl
    | cons b r => simp [scanExponent, (hr b rfl).2.2]
  rw [hds]
  simp [scanUnsigned, hinteger, hfraction, hexponent]

theorem scanNumber_formatInt (i : ℤ) {r : GoString} (hr : Delimited r) :
    scanNumber (formatInt i ++ r) = some (formatInt i, r) := by
  have hscan := scanUnsigned_formatNat i.natAbs hr
  unfold formatInt
  split
  · simp [scanNumber, hscan]
  · obtain ⟨d, ds, hds, -⟩ := formatNat_cons i.natAbs
    have hd := formatNat_digits i.natAbs d (by simp [hds])
    have hminus : d ≠ 0x2D := by
      rintro rfl
      cases hd
    rw [hds] at hscan ⊢
    simpa [scanNumber, hminus] using hscan

theorem formatInt_cons (i : ℤ) :
    ∃ b r, formatInt i = b :: r ∧ (b = 0x2D ∨ isDigit b = true) := by
  unfold formatInt
  split
  · exact ⟨_, _, rfl, Or.inl rfl⟩
  · obtain ⟨d, ds, hds, -⟩ := formatNat_cons i.natAbs
    exact ⟨d, ds, hds, Or.inr (formatNat_digits i.natAbs d (by simp [hds]))⟩

theorem ne_of_number {b c : UInt8} (hb : b = 0x2D ∨ isDigit b = true)
    (hc : c ≠ 0x2D ∧ isDigit c = false) : b ≠ c := by
  rintro rfl
  rcases hb with hb | hb
  · exact hc.1 hb
  · rw [hc.2] at hb
    cases hb

theorem render_cons {v : Value} (hv : Integral v) : ∃ b r, render v = b :: r ∧
    isSpace b = false ∧ b ≠ 0x5D ∧ b ≠ 0x7D := by
  cases v with
  | null => exact ⟨_, _, rfl, by decide⟩
  | bool b => cases b <;> exact ⟨_, _, rfl, by decide⟩
  | number text =>
    obtain ⟨i, rfl⟩ : ∃ i : ℤ, text = formatInt i := by simpa [Integral] using hv
    obtain ⟨b, r, hbr, hb⟩ := formatInt_cons i
    refine ⟨b, r, by simpa [render] using hbr, ?_, ne_of_number hb (by decide),
      ne_of_number hb (by decide)⟩
    have hspace (c : UInt8) (hc : c ≠ 0x2D ∧ isDigit c = false) : b ≠ c := ne_of_number hb hc
    simp [isSpace, hspace 0x20 (by decide), hspace 0x09 (by decide), hspace 0x0A (by decide),
      hspace 0x0D (by decide)]
  | string s => exact ⟨0x22, _, rfl, by decide⟩
  | array xs =>
    cases xs with
    | nil => exact ⟨0x5B, _, rfl, by decide⟩
    | cons x xs => exact ⟨0x5B, _, rfl, by decide⟩
  | object fs =>
    cases fs with
    | nil => exact ⟨0x7B, _, rfl, by decide⟩
    | cons f fs => exact ⟨0x7B, _, rfl, by decide⟩

theorem expect_close {v : Value} (hv : Integral v) (r : GoString) :
    expect [0x5D] (skipSpace (render v ++ r)) = none := by
  obtain ⟨b, t, hbt, hspace, hclose, -⟩ := render_cons hv
  rw [hbt, List.cons_append, skipSpace_cons hspace]
  simp [expect, Ne.symm hclose]

theorem parseKey_quote (key r : GoString) :
    parseKey (quote key ++ 0x3A :: r) = some (toValid key, r) := by
  have hspace : skipSpace (quote key ++ 0x3A :: r) = quote key ++ 0x3A :: r :=
    skipSpace_cons (by decide)
  have hcolon : skipSpace (0x3A :: r) = 0x3A :: r := skipSpace_cons (by decide)
  simp [parseKey, hspace, unquote_quote, hcolon, expect]

theorem delimited_elements (xs : List Value) (r : GoString) :
    Delimited (renderElements xs ++ r) := by
  cases xs with
  | nil => exact delimited_cons (by decide)
  | cons x xs => exact delimited_cons (by decide)

theorem delimited_members (fs : List (GoString × Value)) (r : GoString) :
    Delimited (renderMembers fs ++ r) := by
  cases fs with
  | nil => exact delimited_cons (by decide)
  | cons f fs => exact delimited_cons (by decide)

mutual

theorem parseValue_render : ∀ (v : Value) (n : ℕ) (r : GoString), Integral v →
    (render v).length ≤ n → Delimited r → parseValue n (render v ++ r) = some (decoded v, r)
  | v, 0, r, hv, hn, _ => by
    obtain ⟨b, t, hbt, -⟩ := render_cons hv
    simp [hbt] at hn
  | .null, n + 1, r, _, _, _ => by
    rfl
  | .bool b, n + 1, r, _, _, _ => by
    cases b <;> rfl
  | .number text, n + 1, r, hv, _, hr => by
    obtain ⟨i, rfl⟩ : ∃ i : ℤ, text = formatInt i := by simpa [Integral] using hv
    have hscan := scanNumber_formatInt i hr
    obtain ⟨b, t, hbt, hspace, -⟩ := render_cons hv
    obtain ⟨c, u, hcu, hc⟩ := formatInt_cons i
    obtain ⟨rfl, rfl⟩ : c = b ∧ u = t := by simpa [render, hcu] using hbt
    have hne (d : UInt8) (hd : d ≠ 0x2D ∧ isDigit d = false) : c ≠ d := ne_of_number hc hd
    simp only [render, hcu, List.cons_append, parseValue, skipSpace_cons hspace] at hscan ⊢
    simp [hne 0x22 (by decide), hne 0x5B (by decide), hne 0x7B (by decide),
      hne 0x6E (by decide), hne 0x74 (by decide), hne 0x66 (by decide), hscan, decoded]
  | .string s, n + 1, r, _, _, _ => by
    have hquote := unquote_quote s r
    simp only [quote, List.cons_append] at hquote
    simp only [render, quote, List.cons_append, parseValue,
      skipSpace_cons (b := 0x22) (by decide), if_true, hquote, Option.map_some, decoded]
  | .array [], n + 1, r, _, _, _ => by
    rfl
  | .array (x :: xs), n + 1, r, hv, hn, _ => by
    simp only [Integral, IntegralElements] at hv
    simp only [render, List.length_cons, List.length_append] at hn
    have hx := parseValue_render x n (renderElements xs ++ r) hv.1 (by omega)
      (delimited_elements xs r)
    have hxs := parseElements_render xs n r hv.2 (by omega)
    simp [render, parseValue, skipSpace_cons (b := 0x5B), isSpace, expect_close hv.1, hx, hxs,
      decoded, decodedElements]
  | .object [], n + 1, r, _, _, _ => by
    rfl
  | .object ((key, v) :: fs), n + 1, r, hv, hn, _ => by
    simp only [Integral, IntegralMembers] at hv
    simp only [render, List.length_cons, List.length_append] at hn
    have hopen (t : GoString) : expect [0x7D] (skipSpace (quote key ++ t)) = none := by
      have hspace : skipSpace (quote key ++ t) = quote key ++ t := skipSpace_cons (by decide)
      rw [hspace]
      simp [expect, quote]
    have hx := parseValue_render v n (renderMembers fs ++ r) hv.1 (by omega)
      (delimited_members fs r)
    have hfs := parseMembers_render fs n r hv.2 (by omega)
    simp [render, parseValue, skipSpace_cons (b := 0x7B), isSpace, hopen, parseKey_quote, hx, hfs,
      decoded, decodedMembers]

theorem parseElements_render : ∀ (xs : List Value) (n : ℕ) (r : GoString), IntegralElements xs →
    (renderElements xs).length ≤ n →
      parseElements n (renderElements xs ++ r) = some (decodedElements xs, r)
  | [], 0, r, _, hn => by
    simp [renderElements] at hn
  | _ :: _, 0, r, _, hn => by
    simp [renderElements] at hn
  | [], n + 1, r, _, _ => by
    rfl
  | x :: xs, n + 1, r, hxs, hn => by
    simp only [IntegralElements] at hxs
    simp only [renderElements, List.length_cons, List.length_append] at hn
    have hx := parseValue_render x n (renderElements xs ++ r) hxs.1 (by omega)
      (delimited_elements xs r)
    have hrest := parseElements_render xs n r hxs.2 (by omega)
    simp [renderElements, parseElements, skipSpace_cons (b := 0x2C), isSpace, hx, hrest,
      decodedElements]

theorem parseMembers_render : ∀ (fs : List (GoString × Value)) (n : ℕ) (r : GoString),
    IntegralMembers fs → (renderMembers fs).length ≤ n →
      parseMembers n (renderMembers fs ++ r) = some (decodedMembers fs, r)
  | [], 0, r, _, hn => by
    simp [renderMembers] at hn
  | _ :: _, 0, r, _, hn => by
    simp [renderMembers] at hn
  | [], n + 1, r, _, _ => by
    rfl
  | (key, v) :: fs, n + 1, r, hfs, hn => by
    simp only [IntegralMembers] at hfs
    simp only [renderMembers, List.length_cons, List.length_append] at hn
    have hv := parseValue_render v n (renderMembers fs ++ r) hfs.1 (by omega)
      (delimited_members fs r)
    have hrest := parseMembers_render fs n r hfs.2 (by omega)
    simp [renderMembers, parseMembers, skipSpace_cons (b := 0x2C), isSpace, parseKey_quote, hv,
      hrest, decodedMembers]

end

/-- An encoded value decodes to the value with its strings replaced. -/
theorem parse_render {v : Value} (hv : Integral v) : parse (render v) = some (decoded v) := by
  have h := parseValue_render v (render v).length [] hv le_rfl delimited_nil
  rw [List.append_nil] at h
  unfold parse
  rw [h]
  rfl

/-- `json.Unmarshal` of what `json.Encoder` writes. -/
theorem parse_render_newline {v : Value} (hv : Integral v) :
    parse (render v ++ [0x0A]) = some (decoded v) := by
  have h := parseValue_render v (render v ++ [0x0A]).length [0x0A] hv (by simp)
    (delimited_cons (by decide))
  unfold parse
  rw [h]
  rfl

/-- The same when it is the start of a stream. -/
theorem parseFirst_render {v : Value} (hv : Integral v) {r : GoString} (hr : Delimited r) :
    parseFirst (render v ++ r) = some (decoded v) := by
  have h := parseValue_render v (render v ++ r).length r hv (by simp) hr
  unfold parseFirst
  rw [h]
  rfl

mutual

theorem render_decoded_length : ∀ v : Value,
    (render (decoded v)).length ≤ (render v).length ∧
      ((render (decoded v)).length = (render v).length → decoded v = v)
  | .null => ⟨le_rfl, fun _ => rfl⟩
  | .bool _ => ⟨le_rfl, fun _ => rfl⟩
  | .number _ => ⟨le_rfl, fun _ => rfl⟩
  | .string s => by
    have h := quote_toValid_length s
    simpa [decoded, render] using h
  | .array [] => ⟨le_rfl, fun _ => rfl⟩
  | .array (x :: xs) => by
    have hx := render_decoded_length x
    have hxs := renderElements_decoded_length xs
    simp only [decoded, decodedElements, render, List.length_cons, List.length_append]
    exact ⟨by omega, fun h => by rw [hx.2 (by omega), hxs.2 (by omega)]⟩
  | .object [] => ⟨le_rfl, fun _ => rfl⟩
  | .object ((key, v) :: fs) => by
    have hkey := quote_toValid_length key
    have hv := render_decoded_length v
    have hfs := renderMembers_decoded_length fs
    simp only [decoded, decodedMembers, render, List.length_cons, List.length_append]
    exact ⟨by omega, fun h => by rw [hkey.2 (by omega), hv.2 (by omega), hfs.2 (by omega)]⟩

theorem renderElements_decoded_length : ∀ xs : List Value,
    (renderElements (decodedElements xs)).length ≤ (renderElements xs).length ∧
      ((renderElements (decodedElements xs)).length = (renderElements xs).length →
        decodedElements xs = xs)
  | [] => ⟨le_rfl, fun _ => rfl⟩
  | x :: xs => by
    have hx := render_decoded_length x
    have hxs := renderElements_decoded_length xs
    simp only [decodedElements, renderElements, List.length_cons, List.length_append]
    exact ⟨by omega, fun h => by rw [hx.2 (by omega), hxs.2 (by omega)]⟩

theorem renderMembers_decoded_length : ∀ fs : List (GoString × Value),
    (renderMembers (decodedMembers fs)).length ≤ (renderMembers fs).length ∧
      ((renderMembers (decodedMembers fs)).length = (renderMembers fs).length →
        decodedMembers fs = fs)
  | [] => ⟨le_rfl, fun _ => rfl⟩
  | (key, v) :: fs => by
    have hkey := quote_toValid_length key
    have hv := render_decoded_length v
    have hfs := renderMembers_decoded_length fs
    simp only [decodedMembers, renderMembers, List.length_cons, List.length_append]
    exact ⟨by omega, fun h => by rw [hkey.2 (by omega), hv.2 (by omega), hfs.2 (by omega)]⟩

end

/-- Decoding and encoding again gives the same text when nothing was replaced, and
never otherwise. -/
theorem render_decoded_iff {v : Value} : render (decoded v) = render v ↔ decoded v = v := by
  constructor
  · intro h
    exact (render_decoded_length v).2 (congrArg List.length h)
  · intro h
    rw [h]

theorem eq_of_render_eq {v w : Value} (hv : Integral v) (hw : Integral w)
    (hdecoded : decoded w = w) (h : render v = render w) : v = w := by
  have hparse := parse_render hv
  rw [h, parse_render hw, hdecoded, Option.some.injEq] at hparse
  have hsame : decoded v = v := by
    apply render_decoded_iff.mp
    rw [← hparse, h]
  rw [← hsame, hparse]

/-! ### Decoded texts -/

theorem parseKey_toValid {s key r : GoString} (h : parseKey s = some (key, r)) :
    toValid key = key := by
  unfold parseKey at h
  obtain ⟨⟨key', t⟩, hunquote, h⟩ := Option.bind_eq_some_iff.mp h
  obtain ⟨u, -, hu⟩ := Option.map_eq_some_iff.mp h
  cases hu
  exact unquote_toValid hunquote

/-- The parts of a decoded text are decoded, by induction on the fuel. -/
theorem decoded_of_parse (n : ℕ) :
    (∀ {s r v}, parseValue n s = some (v, r) → decoded v = v) ∧
      (∀ {s r xs}, parseElements n s = some (xs, r) → decodedElements xs = xs) ∧
        ∀ {s r fs}, parseMembers n s = some (fs, r) → decodedMembers fs = fs := by
  induction n with
  | zero => exact ⟨nofun, nofun, nofun⟩
  | succ n ih =>
    obtain ⟨ihv, ihxs, ihfs⟩ := ih
    refine ⟨?_, ?_, ?_⟩
    · intro s r v h
      simp only [parseValue] at h
      split at h
      · cases h
      · rename_i b t _
        split_ifs at h
        · obtain ⟨⟨w, u⟩, hunquote, hp⟩ := Option.map_eq_some_iff.mp h
          cases hp
          simp only [decoded, unquote_toValid hunquote]
        · split at h
          · cases h
            rfl
          · obtain ⟨⟨x, u⟩, hx, h⟩ := Option.bind_eq_some_iff.mp h
            obtain ⟨⟨xs, w⟩, hxs, hp⟩ := Option.map_eq_some_iff.mp h
            cases hp
            simp only [decoded, decodedElements, ihv hx, ihxs hxs]
        · split at h
          · cases h
            rfl
          · obtain ⟨⟨key, u⟩, hkey, h⟩ := Option.bind_eq_some_iff.mp h
            obtain ⟨⟨x, w⟩, hx, h⟩ := Option.bind_eq_some_iff.mp h
            obtain ⟨⟨fs, y⟩, hfs, hp⟩ := Option.map_eq_some_iff.mp h
            cases hp
            simp only [decoded, decodedMembers, parseKey_toValid hkey, ihv hx, ihfs hfs]
        all_goals
          obtain ⟨u, -, hp⟩ := Option.map_eq_some_iff.mp h
          cases hp
          rfl
    · intro s r xs h
      simp only [parseElements] at h
      split at h
      · cases h
      · split_ifs at h
        · cases h
          rfl
        · obtain ⟨⟨x, u⟩, hx, h⟩ := Option.bind_eq_some_iff.mp h
          obtain ⟨⟨ys, w⟩, hxs, hp⟩ := Option.map_eq_some_iff.mp h
          cases hp
          simp only [decodedElements, ihv hx, ihxs hxs]
    · intro s r fs h
      simp only [parseMembers] at h
      split at h
      · cases h
      · split_ifs at h
        · cases h
          rfl
        · obtain ⟨⟨key, u⟩, hkey, h⟩ := Option.bind_eq_some_iff.mp h
          obtain ⟨⟨x, w⟩, hx, h⟩ := Option.bind_eq_some_iff.mp h
          obtain ⟨⟨gs, y⟩, hfs, hp⟩ := Option.map_eq_some_iff.mp h
          cases hp
          simp only [decodedMembers, parseKey_toValid hkey, ihv hx, ihfs hfs]

theorem decoded_of_parseFirst {s : GoString} {v : Value} (h : parseFirst s = some v) :
    decoded v = v := by
  obtain ⟨⟨w, r⟩, hp, rfl⟩ := Option.map_eq_some_iff.mp h
  exact (decoded_of_parse _).1 hp

/-! ### Fuel

Every call is on a shorter text, so the length of a text is enough fuel for it. -/

theorem skipSpace_length (s : GoString) : (skipSpace s).length ≤ s.length :=
  (List.dropWhile_suffix _).length_le

theorem skipSpace_tail {s r : GoString} {b : UInt8} (h : skipSpace s = b :: r) :
    r.length < s.length := by
  have hle := skipSpace_length s
  rw [h, List.length_cons] at hle
  omega

theorem expect_length {w s r : GoString} (hw : w ≠ []) (h : expect w s = some r) :
    r.length < s.length := by
  unfold expect at h
  split at h
  · rename_i hprefix
    cases h
    have hle := (List.isPrefixOf_iff_prefix.mp hprefix).length_le
    have hpos := List.length_pos_iff.mpr hw
    rw [List.length_drop]
    omega
  · cases h

theorem parseKey_length {s key r : GoString} (h : parseKey s = some (key, r)) :
    r.length < s.length := by
  unfold parseKey at h
  obtain ⟨⟨k, t⟩, hunquote, h⟩ := Option.bind_eq_some_iff.mp h
  obtain ⟨u, hu, h⟩ := Option.map_eq_some_iff.mp h
  cases h
  have hkey := unquote_length hunquote
  have hcolon := expect_length (by decide) hu
  have hs := skipSpace_length s
  have ht := skipSpace_length t
  omega

theorem scanDigits_length {start r t u : GoString} (h : scanDigits start r = some (t, u)) :
    u.length ≤ r.length := by
  unfold scanDigits at h
  split at h
  · cases h
  · cases h
    exact (List.dropWhile_suffix _).length_le

theorem scanInteger_length {s t r : GoString} (h : scanInteger s = some (t, r)) :
    r.length < s.length := by
  unfold scanInteger at h
  split at h
  · cases h
  · split_ifs at h
    · cases h
      simp
    · cases h
      exact Nat.lt_succ_of_le (List.dropWhile_suffix _).length_le

theorem scanFraction_length {s t r : GoString} (h : scanFraction s = some (t, r)) :
    r.length ≤ s.length := by
  unfold scanFraction at h
  split at h
  · cases h
    exact le_rfl
  · split_ifs at h
    · exact (scanDigits_length h).trans (Nat.le_succ _)
    · cases h
      exact le_rfl

theorem scanExponent_length {s t r : GoString} (h : scanExponent s = some (t, r)) :
    r.length ≤ s.length := by
  unfold scanExponent at h
  split at h
  · cases h
    exact le_rfl
  · split_ifs at h
    · split at h
      · cases h
      · split_ifs at h
        · exact (scanDigits_length h).trans ((Nat.le_succ _).trans (Nat.le_succ _))
        · exact (scanDigits_length h).trans (Nat.le_succ _)
    · cases h
      exact le_rfl

theorem scanUnsigned_length {s t r : GoString} (h : scanUnsigned s = some (t, r)) :
    r.length < s.length := by
  simp only [scanUnsigned, Option.bind_eq_bind, Option.bind_eq_some_iff, Option.pure_def,
    Option.some.injEq] at h
  obtain ⟨⟨i, u⟩, hinteger, ⟨f, v⟩, hfraction, ⟨e, w⟩, hexponent, h⟩ := h
  obtain rfl : w = r := (Prod.mk.inj h).2
  calc
    w.length ≤ v.length := scanExponent_length hexponent
    _ ≤ u.length := scanFraction_length hfraction
    _ < s.length := scanInteger_length hinteger

theorem scanNumber_length {s t r : GoString} (h : scanNumber s = some (t, r)) :
    r.length < s.length := by
  unfold scanNumber at h
  split at h
  · cases h
  · split_ifs at h
    · obtain ⟨⟨u, v⟩, hu, h⟩ := Option.map_eq_some_iff.mp h
      cases h
      exact (scanUnsigned_length hu).trans (Nat.lt_succ_self _)
    · exact scanUnsigned_length h

theorem expect_skipSpace_length {w s r : GoString} (hw : w ≠ [])
    (h : expect w (skipSpace s) = some r) : r.length < s.length :=
  (expect_length hw h).trans_le (skipSpace_length s)

/-- What `f` leaves of a text is shorter. -/
def Consumes {α : Type} (f : GoString → Option (α × GoString)) : Prop :=
  ∀ ⦃s a r⦄, f s = some (a, r) → r.length < s.length

section

variable {n : ℕ}

theorem parseValue_consumes (hvalue : Consumes (parseValue n))
    (helements : Consumes (parseElements n)) (hmembers : Consumes (parseMembers n)) :
    Consumes (parseValue (n + 1)) := by
  intro s v r h
  simp only [parseValue] at h
  split at h
  · cases h
  · rename_i b t hs
    have hlt := skipSpace_tail hs
    rw [← hs] at h
    split_ifs at h
    · obtain ⟨⟨w, u⟩, hunquote, hp⟩ := Option.map_eq_some_iff.mp h
      obtain rfl : u = r := (Prod.mk.inj hp).2
      exact (unquote_length hunquote).trans_le (skipSpace_length s)
    · split at h
      · rename_i hempty
        cases h
        exact (expect_skipSpace_length (by simp) hempty).trans hlt
      · obtain ⟨⟨x, u⟩, hx, h⟩ := Option.bind_eq_some_iff.mp h
        obtain ⟨⟨xs, w⟩, hxs, hp⟩ := Option.map_eq_some_iff.mp h
        obtain rfl : w = r := (Prod.mk.inj hp).2
        exact (helements hxs).trans ((hvalue hx).trans hlt)
    · split at h
      · rename_i hempty
        cases h
        exact (expect_skipSpace_length (by simp) hempty).trans hlt
      · obtain ⟨⟨key, u⟩, hkey, h⟩ := Option.bind_eq_some_iff.mp h
        obtain ⟨⟨x, w⟩, hx, h⟩ := Option.bind_eq_some_iff.mp h
        obtain ⟨⟨fs, y⟩, hfs, hp⟩ := Option.map_eq_some_iff.mp h
        obtain rfl : y = r := (Prod.mk.inj hp).2
        exact (hmembers hfs).trans ((hvalue hx).trans ((parseKey_length hkey).trans hlt))
    -- the three literals, then a number
    iterate 3
      · obtain ⟨u, hu, hp⟩ := Option.map_eq_some_iff.mp h
        cases hp
        exact expect_skipSpace_length (by decide) hu
    · obtain ⟨⟨w, u⟩, hnumber, hp⟩ := Option.map_eq_some_iff.mp h
      obtain rfl : u = r := (Prod.mk.inj hp).2
      exact (scanNumber_length hnumber).trans_le (skipSpace_length s)

theorem parseElements_consumes (hvalue : Consumes (parseValue n))
    (helements : Consumes (parseElements n)) : Consumes (parseElements (n + 1)) := by
  intro s xs r h
  simp only [parseElements] at h
  split at h
  · cases h
  · rename_i b t hs
    have hlt := skipSpace_tail hs
    split_ifs at h
    · cases h
      exact hlt
    · obtain ⟨⟨x, u⟩, hx, h⟩ := Option.bind_eq_some_iff.mp h
      obtain ⟨⟨ys, w⟩, hxs, hp⟩ := Option.map_eq_some_iff.mp h
      obtain rfl : w = r := (Prod.mk.inj hp).2
      exact (helements hxs).trans ((hvalue hx).trans hlt)

theorem parseMembers_consumes (hvalue : Consumes (parseValue n))
    (hmembers : Consumes (parseMembers n)) : Consumes (parseMembers (n + 1)) := by
  intro s fs r h
  simp only [parseMembers] at h
  split at h
  · cases h
  · rename_i b t hs
    have hlt := skipSpace_tail hs
    split_ifs at h
    · cases h
      exact hlt
    · obtain ⟨⟨key, u⟩, hkey, h⟩ := Option.bind_eq_some_iff.mp h
      obtain ⟨⟨x, w⟩, hx, h⟩ := Option.bind_eq_some_iff.mp h
      obtain ⟨⟨gs, y⟩, hfs, hp⟩ := Option.map_eq_some_iff.mp h
      obtain rfl : y = r := (Prod.mk.inj hp).2
      exact (hmembers hfs).trans ((hvalue hx).trans ((parseKey_length hkey).trans hlt))

end

/-- What is left of a text is shorter, by induction on the fuel. -/
theorem parse_length (n : ℕ) :
    Consumes (parseValue n) ∧ Consumes (parseElements n) ∧ Consumes (parseMembers n) := by
  induction n with
  | zero => exact ⟨nofun, nofun, nofun⟩
  | succ n ih =>
    obtain ⟨hvalue, helements, hmembers⟩ := ih
    exact ⟨parseValue_consumes hvalue helements hmembers,
      parseElements_consumes hvalue helements, parseMembers_consumes hvalue hmembers⟩

/-- More fuel than the length of the text changes nothing. -/
theorem parse_fuel (n : ℕ) : ∀ m s, s.length ≤ n → s.length ≤ m →
    parseValue n s = parseValue m s ∧ parseElements n s = parseElements m s ∧
      parseMembers n s = parseMembers m s := by
  induction n with
  | zero =>
    intro m s hn _
    obtain rfl := List.length_eq_zero_iff.mp (Nat.le_zero.mp hn)
    cases m <;> exact ⟨rfl, rfl, rfl⟩
  | succ n ih =>
    intro m s hn hm
    cases hs : skipSpace s with
    | nil => cases m <;> simp [parseValue, parseElements, parseMembers, hs]
    | cons b r =>
      have hr := skipSpace_tail hs
      obtain ⟨m, rfl⟩ : ∃ k, m = k + 1 := ⟨m - 1, by omega⟩
      -- the calls are on what follows `b`
      have ihr {u : GoString} (hu : u.length ≤ r.length) := ih m u (by omega) (by omega)
      have helements {α : Type} (f : Value → List Value → α) :
          ((parseValue n r).bind fun p => (parseElements n p.2).map
            fun q => (f p.1 q.1, q.2)) =
          (parseValue m r).bind fun p => (parseElements m p.2).map
            fun q => (f p.1 q.1, q.2) := by
        rw [(ihr le_rfl).1]
        apply Option.bind_congr
        rintro ⟨x, u⟩ hx
        rw [(ihr ((parse_length m).1 hx).le).2.1]
      have hmembers {α : Type} (f : GoString → Value → List (GoString × Value) → α) :
          ((parseKey r).bind fun k => (parseValue n k.2).bind fun p =>
            (parseMembers n p.2).map fun q => (f k.1 p.1 q.1, q.2)) =
          (parseKey r).bind fun k => (parseValue m k.2).bind fun p =>
            (parseMembers m p.2).map fun q => (f k.1 p.1 q.1, q.2) := by
        apply Option.bind_congr
        rintro ⟨key, u⟩ hkey
        have hu := (parseKey_length hkey).le
        rw [(ihr hu).1]
        apply Option.bind_congr
        rintro ⟨x, w⟩ hx
        rw [(ihr (((parse_length m).1 hx).le.trans hu)).2.2]
      refine ⟨?_, ?_, ?_⟩
      · simp only [parseValue, hs, helements fun x xs => Value.array (x :: xs),
          hmembers fun key v fs => Value.object ((key, v) :: fs)]
      · simp only [parseElements, hs, helements fun x xs => x :: xs]
      · simp only [parseMembers, hs, hmembers fun key v fs => (key, v) :: fs]

end Patchli.Json
