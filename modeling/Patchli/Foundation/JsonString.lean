import Patchli.Foundation.Utf8

/-!
# JSON string literals

The string encoder of `encoding/json` with its HTML-safe escapes, and the decoder.
Decoding an encoded string replaces the bytes that encode no character. Such a
byte is encoded as an escape of six bytes, but its replacement as the three bytes
of U+FFFD, so a string with such bytes has a longer literal than what it decodes
to.
-/

namespace Patchli.Json

open Utf8 GoString

/-- The letter of a two-byte escape. -/
def escapeLetter (b : UInt8) : Option UInt8 :=
  if b = 0x22 ∨ b = 0x5C then some b
  else if b = 0x08 then some 0x62
  else if b = 0x0C then some 0x66
  else if b = 0x0A then some 0x6E
  else if b = 0x0D then some 0x72
  else if b = 0x09 then some 0x74
  else none

/-- An ASCII byte of a literal; `<`, `>` and `&` are escaped too. -/
def quoteByte (b : UInt8) : GoString :=
  match escapeLetter b with
  | some c => [0x5C, c]
  | none =>
    if b < 0x20 ∨ b = 0x3C ∨ b = 0x3E ∨ b = 0x26 then
      0x5C :: 0x75 :: 0x30 :: 0x30 :: [hexDigit (b.toNat / 16), hexDigit (b.toNat % 16)]
    else [b]

def quoteSegment : Segment → GoString
  | .char [b] => quoteByte b
  | .char bs =>
    if bs = [0xE2, 0x80, 0xA8] then ascii "\\u2028"
    else if bs = [0xE2, 0x80, 0xA9] then ascii "\\u2029"
    else bs
  | .invalid _ => ascii "\\ufffd"

def quoteBody (s : GoString) : GoString := (segments s).flatMap quoteSegment

/-- The literal that encodes a string. -/
def quote (s : GoString) : GoString := 0x22 :: (quoteBody s ++ [0x22])

/-! ### Decoding -/

def hexDigitValue (d : UInt8) : Option ℕ :=
  if 0x30 ≤ d ∧ d ≤ 0x39 then some (d.toNat - 0x30)
  else if 0x61 ≤ d ∧ d ≤ 0x66 then some (d.toNat - 0x57)
  else if 0x41 ≤ d ∧ d ≤ 0x46 then some (d.toNat - 0x37)
  else none

/-- The code unit after `\u`, and the rest. -/
def getu4 : GoString → Option (ℕ × GoString)
  | a :: b :: c :: d :: r => do
    let a ← hexDigitValue a
    let b ← hexDigitValue b
    let c ← hexDigitValue c
    let d ← hexDigitValue d
    return (a * 4096 + b * 256 + c * 16 + d, r)
  | _ => none

/-- `utf8.EncodeRune`. -/
def encodeRune (n : ℕ) : GoString :=
  if n < 0x80 then [n.toUInt8]
  else if n < 0x800 then [(0xC0 + n / 64).toUInt8, (0x80 + n % 64).toUInt8]
  else if 0xD800 ≤ n ∧ n < 0xE000 then replacement
  else if n < 0x10000 then
    [(0xE0 + n / 4096).toUInt8, (0x80 + n / 64 % 64).toUInt8, (0x80 + n % 64).toUInt8]
  else if n < 0x110000 then
    [(0xF0 + n / 262144).toUInt8, (0x80 + n / 4096 % 64).toUInt8, (0x80 + n / 64 % 64).toUInt8,
      (0x80 + n % 64).toUInt8]
  else replacement

/-- The low half of a surrogate pair, when the escape of one follows. -/
def lowSurrogate : GoString → Option (ℕ × GoString)
  | b :: c :: r =>
    if b = 0x5C ∧ c = 0x75 then
      (getu4 r).filter fun p => decide (0xDC00 ≤ p.1 ∧ p.1 < 0xE000)
    else none
  | _ => none

/-- The character of a code unit and, for a surrogate pair, of the one after it. -/
def unescapeUnit (u : ℕ) (r : GoString) : GoString × GoString :=
  if 0xD800 ≤ u ∧ u < 0xDC00 then
    match lowSurrogate r with
    | some (v, r) => (encodeRune (0x10000 + (u - 0xD800) * 1024 + (v - 0xDC00)), r)
    | none => (replacement, r)
  else (encodeRune u, r)

/-- The byte of a two-byte escape. -/
def escapedByte (c : UInt8) : Option UInt8 :=
  if c = 0x22 ∨ c = 0x5C ∨ c = 0x2F then some c
  else if c = 0x62 then some 0x08
  else if c = 0x66 then some 0x0C
  else if c = 0x6E then some 0x0A
  else if c = 0x72 then some 0x0D
  else if c = 0x74 then some 0x09
  else none

def unescape : GoString → Option (GoString × GoString)
  | [] => none
  | c :: r =>
    if c = 0x75 then (getu4 r).map fun p => unescapeUnit p.1 p.2
    else (escapedByte c).map fun b => ([b], r)

def unquoteAux : ℕ → GoString → Option (GoString × GoString)
  | 0, _ | _ + 1, [] => none
  | n + 1, b :: r =>
    if b = 0x22 then some ([], r)
    else if b = 0x5C then
      (unescape r).bind fun (bs, r) => (unquoteAux n r).map fun (s, r) => (bs ++ s, r)
    else if b < 0x20 then none
    else (unquoteAux n r).map fun (s, r) => (b :: s, r)

/-- The bytes of a literal up to its closing quotation mark, and the rest. -/
def unquoteBody (s : GoString) : Option (GoString × GoString) := unquoteAux s.length s

/-- Decode the literal that starts here. -/
def unquote : GoString → Option (GoString × GoString)
  | 0x22 :: r => (unquoteBody r).map fun (s, r) => (toValid s, r)
  | _ => none

theorem getu4_length {r t : GoString} {u : ℕ} (h : getu4 r = some (u, t)) :
    t.length < r.length := by
  unfold getu4 at h
  split at h
  · simp only [Option.pure_def, Option.bind_eq_bind, Option.bind_eq_some_iff, Option.some.injEq,
      Prod.mk.injEq] at h
    obtain ⟨_, -, _, -, _, -, _, -, -, rfl⟩ := h
    simp
    omega
  · cases h

theorem unescapeUnit_length (u : ℕ) (r : GoString) : (unescapeUnit u r).2.length ≤ r.length := by
  unfold unescapeUnit
  split
  · split
    · rename_i v t hlow
      unfold lowSurrogate at hlow
      split at hlow
      · split at hlow
        · have hlength := getu4_length (Option.filter_eq_some_iff.mp hlow).1
          simp only [List.length_cons]
          omega
        · cases hlow
      · cases hlow
    · exact le_rfl
  · exact le_rfl

theorem unescape_length {r t bs : GoString} (h : unescape r = some (bs, t)) :
    t.length < r.length := by
  cases r with
  | nil => cases h
  | cons c r =>
    simp only [unescape] at h
    split at h
    · obtain ⟨⟨u, v⟩, hu, h⟩ := Option.map_eq_some_iff.mp h
      have hv := getu4_length hu
      have ht := unescapeUnit_length u v
      simp only [h] at ht
      simp only [List.length_cons]
      omega
    · obtain ⟨b, -, h⟩ := Option.map_eq_some_iff.mp h
      cases h
      simp

theorem unquoteAux_eq {n : ℕ} {s : GoString} (hn : s.length ≤ n) :
    unquoteAux n s = unquoteBody s := by
  induction n using Nat.strong_induction_on generalizing s with
  | _ n ih =>
    cases s with
    | nil => cases n <;> rfl
    | cons b r =>
      cases n with
      | zero => simp at hn
      | succ n =>
        simp only [List.length_cons, Nat.add_le_add_iff_right] at hn
        unfold unquoteBody
        simp only [List.length_cons, unquoteAux]
        have hescape : ((unescape r).bind fun p => (unquoteAux n p.2).map
              fun q => (p.1 ++ q.1, q.2)) =
            (unescape r).bind fun p => (unquoteAux r.length p.2).map
              fun q => (p.1 ++ q.1, q.2) := by
          cases hr : unescape r with
          | none => rfl
          | some p =>
            have hp := unescape_length hr
            simp only [Option.bind_some, ih n (by omega) (s := p.2) (by omega),
              ih r.length (by omega) (s := p.2) (by omega)]
        simp only [hescape, ih n (by omega) hn, ih r.length (by omega) le_rfl]

theorem unquoteBody_end (r : GoString) : unquoteBody (0x22 :: r) = some ([], r) := by
  simp [unquoteBody, unquoteAux]

theorem unquoteBody_plain {b : UInt8} (r : GoString) (hquote : b ≠ 0x22) (hescape : b ≠ 0x5C)
    (hcontrol : ¬ b < 0x20) :
    unquoteBody (b :: r) = (unquoteBody r).map fun p => (b :: p.1, p.2) := by
  simp [unquoteBody, unquoteAux, hquote, hescape, hcontrol]

theorem unquoteBody_escape {r t bs : GoString} (h : unescape r = some (bs, t)) :
    unquoteBody (0x5C :: r) = (unquoteBody t).map fun p => (bs ++ p.1, p.2) := by
  have ht := unescape_length h
  rw [← unquoteAux_eq (n := r.length) (s := t) (by omega)]
  simp [unquoteBody, unquoteAux, h]

/-! ### Decoding what was encoded -/

theorem hexDigitValue_hexDigit {n : ℕ} (hn : n < 16) : hexDigitValue (hexDigit n) = some n := by
  interval_cases n <;> rfl

theorem escapedByte_escapeLetter {b c : UInt8} (h : escapeLetter b = some c) :
    c ≠ 0x75 ∧ escapedByte c = some b := by
  unfold escapeLetter at h
  split_ifs at h with h₁ h₂ h₃ h₄ h₅ h₆
  · cases h
    rcases h₁ with rfl | rfl <;> decide
  all_goals
    cases h
    subst b
    decide

theorem getu4_hex {b : UInt8} (r : GoString) :
    getu4 (0x30 :: 0x30 :: hexDigit (b.toNat / 16) :: hexDigit (b.toNat % 16) :: r) =
      some (b.toNat, r) := by
  have hlt := b.toNat_lt
  have hhigh := hexDigitValue_hexDigit (n := b.toNat / 16) (by omega)
  have hlow := hexDigitValue_hexDigit (n := b.toNat % 16) (by omega)
  have hzero : hexDigitValue 0x30 = some 0 := rfl
  simp only [getu4, hzero, hhigh, hlow, Option.bind_eq_bind, Option.bind_some, Option.pure_def,
    Option.some.injEq, Prod.mk.injEq, and_true]
  omega

theorem unescape_hex {b : UInt8} (hb : b < 0x80) (r : GoString) :
    unescape (0x75 :: 0x30 :: 0x30 :: hexDigit (b.toNat / 16) :: hexDigit (b.toNat % 16) :: r) =
      some ([b], r) := by
  have hlt : b.toNat < 128 := hb
  have hrune : encodeRune b.toNat = [b] := by simp [encodeRune, hlt]
  simp only [unescape, if_true, getu4_hex, Option.map_some, unescapeUnit, hrune]
  rw [if_neg (by omega)]

theorem unquoteBody_quoteByte {b : UInt8} (hb : b < 0x80) (r : GoString) :
    unquoteBody (quoteByte b ++ r) = (unquoteBody r).map fun p => (b :: p.1, p.2) := by
  unfold quoteByte
  split
  · rename_i c hc
    obtain ⟨hne, hbyte⟩ := escapedByte_escapeLetter hc
    have hunescape : unescape (c :: r) = some ([b], r) := by simp [unescape, hne, hbyte]
    exact unquoteBody_escape hunescape
  · rename_i hnone
    split
    · exact unquoteBody_escape (unescape_hex hb r)
    · rename_i hsafe
      simp only [not_or] at hsafe
      apply unquoteBody_plain r _ _ hsafe.1
      · rintro rfl
        cases hnone
      · rintro rfl
        cases hnone

theorem unquoteBody_raw {bs : GoString} (hbs : ∀ b ∈ bs, 0x80 ≤ b) (r : GoString) :
    unquoteBody (bs ++ r) = (unquoteBody r).map fun p => (bs ++ p.1, p.2) := by
  induction bs with
  | nil =>
    rw [List.nil_append]
    cases unquoteBody r <;> rfl
  | cons b bs ih =>
    have hb : 128 ≤ b.toNat := hbs b (by simp)
    have hne {c : UInt8} (hc : c.toNat < 128) : b ≠ c := by
      rintro rfl
      omega
    rw [List.cons_append, unquoteBody_plain _ (hne (by decide)) (hne (by decide)),
      ih fun c hc => hbs c (by simp [hc])]
    · cases unquoteBody r <;> rfl
    · intro hlt
      have hlt' : b.toNat < 32 := hlt
      omega

theorem high_of_runeSize {b : UInt8} {rest : GoString} {k : ℕ}
    (h : runeSize (b :: rest) = k + 2) : ∀ c ∈ b :: rest.take (k + 1), 0x80 ≤ c := by
  obtain ⟨htrailing, hlength, hfollows⟩ := runeSize_eq_succ.mp h
  have hb : 0x80 ≤ b := by
    unfold trailing at htrailing
    split at htrailing
    · simp at htrailing
    · rename_i hb
      exact UInt8.not_lt.mp hb
  have haccepts {c : UInt8} (hc : accepts b c = true) : 0x80 ≤ c := by
    have h80 {m : UInt8} (hm : 0x80 ≤ m.toNat) (hle : m ≤ c) : 0x80 ≤ c := hm.trans hle
    unfold accepts isCont at hc
    split_ifs at hc
    all_goals
      simp only [Bool.and_eq_true, decide_eq_true_eq] at hc
      exact h80 (by decide) hc.1
  cases htake : rest.take (k + 1) with
  | nil => simp [htake] at hlength
  | cons d ds =>
    simp only [htake, follows, Bool.and_eq_true, List.all_eq_true] at hfollows
    intro c hc
    simp only [List.mem_cons] at hc
    rcases hc with rfl | rfl | hc
    · exact hb
    · exact haccepts hfollows.1
    · have hcont := hfollows.2 c hc
      simp only [isCont, Bool.and_eq_true, decide_eq_true_eq] at hcont
      exact hcont.1

theorem ascii_of_runeSize {b : UInt8} {rest : GoString} (h : runeSize (b :: rest) = 1) :
    b < 0x80 := by
  have htrailing := (runeSize_eq_succ.mp h).1
  unfold trailing at htrailing
  split_ifs at htrailing with hb
  · exact hb
  all_goals cases htrailing

theorem unquoteBody_unit {a b c d : UInt8} {u : ℕ} {bs : GoString}
    (hu : getu4 [a, b, c, d] = some (u, [])) (hsurrogate : ¬ (0xD800 ≤ u ∧ u < 0xDC00))
    (hrune : encodeRune u = bs) (r : GoString) :
    unquoteBody ([0x5C, 0x75, a, b, c, d] ++ r) =
      (unquoteBody r).map fun p => (bs ++ p.1, p.2) := by
  have hr : getu4 (a :: b :: c :: d :: r) = some (u, r) := by
    simp only [getu4, Option.pure_def, Option.bind_eq_bind, Option.bind_eq_some_iff,
      Option.some.injEq, Prod.mk.injEq, and_true] at hu ⊢
    exact hu
  apply unquoteBody_escape
  simp [unescape, hr, unescapeUnit, hsurrogate, hrune]

theorem unquoteBody_quoteSegment {b : UInt8} {rest : GoString} {k : ℕ}
    (h : runeSize (b :: rest) = k + 1) (r : GoString) :
    unquoteBody (quoteSegment (.char (b :: rest.take k)) ++ r) =
      (unquoteBody r).map fun p => (b :: rest.take k ++ p.1, p.2) := by
  cases k with
  | zero => exact unquoteBody_quoteByte (ascii_of_runeSize h) r
  | succ k =>
    have hhigh := high_of_runeSize h
    have hlength := take_length_of_runeSize h
    cases htake : rest.take (k + 1) with
    | nil => simp [htake] at hlength
    | cons c cs =>
      rw [htake] at hhigh
      simp only [quoteSegment]
      split
      · rename_i heq
        have htext : ascii "\\u2028" = [0x5C, 0x75, 0x32, 0x30, 0x32, 0x38] := by decide
        rw [heq, htext]
        exact unquoteBody_unit (u := 0x2028) (by decide) (by decide) (by decide) r
      · split
        · rename_i heq
          have htext : ascii "\\u2029" = [0x5C, 0x75, 0x32, 0x30, 0x32, 0x39] := by decide
          rw [heq, htext]
          exact unquoteBody_unit (u := 0x2029) (by decide) (by decide) (by decide) r
        · exact unquoteBody_raw hhigh r

theorem unquoteBody_quoteBody (s r : GoString) :
    unquoteBody (quoteBody s ++ 0x22 :: r) = some (toValid s, r) := by
  unfold quoteBody toValid
  induction s using segments_induction with
  | nil => exact unquoteBody_end r
  | invalid b rest h ih =>
    have htext : quoteSegment (.invalid b) = [0x5C, 0x75, 0x66, 0x66, 0x66, 0x64] := by
      change ascii "\\ufffd" = _
      decide
    simp only [segments_invalid h, List.flatMap_cons, List.append_assoc]
    have hrune : encodeRune 0xFFFD = replacement := by decide
    rw [htext, unquoteBody_unit (by decide) (by decide) hrune, ih]
    rfl
  | char b rest k h ih =>
    simp only [segments_char h, List.flatMap_cons, List.append_assoc]
    rw [unquoteBody_quoteSegment h, ih]
    rfl

/-- What encodes no character does not survive being encoded and decoded. -/
theorem unquote_quote (s r : GoString) : unquote (quote s ++ r) = some (toValid s, r) := by
  have h := unquoteBody_quoteBody s r
  simp only [quote, List.cons_append, List.append_assoc, List.nil_append, unquote]
  rw [h, Option.map_some, toValid_toValid]

theorem unquote_toValid {s t r : GoString} (h : unquote s = some (t, r)) : toValid t = t := by
  unfold unquote at h
  split at h
  · obtain ⟨p, -, hp⟩ := Option.map_eq_some_iff.mp h
    cases hp
    exact toValid_toValid _
  · cases h

/-! ### Lengths -/

theorem unquoteAux_length {n : ℕ} {s t r : GoString} (h : unquoteAux n s = some (t, r)) :
    r.length < s.length := by
  induction n generalizing s t r with
  | zero => cases h
  | succ n ih =>
    cases s with
    | nil => cases h
    | cons b s =>
      simp only [unquoteAux] at h
      rw [List.length_cons]
      split_ifs at h
      · cases h
        omega
      · obtain ⟨⟨bs, u⟩, hu, h⟩ := Option.bind_eq_some_iff.mp h
        obtain ⟨⟨v, w⟩, hv, h⟩ := Option.map_eq_some_iff.mp h
        obtain rfl : w = r := (Prod.mk.inj h).2
        have hlt := unescape_length hu
        have hrest : w.length < u.length := ih hv
        omega
      · obtain ⟨⟨v, w⟩, hv, h⟩ := Option.map_eq_some_iff.mp h
        obtain rfl : w = r := (Prod.mk.inj h).2
        have hrest := ih hv
        omega

theorem unquote_length {s t r : GoString} (h : unquote s = some (t, r)) :
    r.length < s.length := by
  unfold unquote at h
  split at h
  · obtain ⟨⟨v, w⟩, hv, h⟩ := Option.map_eq_some_iff.mp h
    cases h
    have hlt := unquoteAux_length hv
    rw [List.length_cons]
    omega
  · cases h

theorem quoteBody_toValid_length (s : GoString) :
    (quoteBody (toValid s)).length ≤ (quoteBody s).length ∧
      ((quoteBody (toValid s)).length = (quoteBody s).length → toValid s = s) := by
  unfold quoteBody
  rw [segments_toValid, List.flatMap_map]
  induction s using segments_induction with
  | nil => exact ⟨le_rfl, fun _ => rfl⟩
  | invalid b rest h ih =>
    -- six bytes for the escape, three for the replacement
    rw [segments_invalid h]
    have hescape : (quoteSegment (.invalid b)).length = 6 := rfl
    have hraw : (quoteSegment (.char (Segment.invalid b).decoded)).length = 3 := rfl
    simp only [List.flatMap_cons, List.length_append, hescape, hraw]
    omega
  | char b rest k h ih =>
    have hvalid : toValid (rest.drop k) = rest.drop k → toValid (b :: rest) = b :: rest := by
      intro hdrop
      unfold toValid at hdrop ⊢
      rw [segments_char h, List.flatMap_cons, hdrop]
      exact congrArg (b :: ·) (List.take_append_drop k rest)
    have hsame : quoteSegment (.char (Segment.char (b :: rest.take k)).decoded) =
        quoteSegment (.char (b :: rest.take k)) := rfl
    rw [segments_char h]
    simp only [List.flatMap_cons, List.length_append, hsame]
    exact ⟨by omega, fun heq => hvalid (ih.2 (by omega))⟩

/-- Decoding shortens the literal of a string, unless it changes nothing. -/
theorem quote_toValid_length (s : GoString) :
    (quote (toValid s)).length ≤ (quote s).length ∧
      ((quote (toValid s)).length = (quote s).length → toValid s = s) := by
  obtain ⟨hle, heq⟩ := quoteBody_toValid_length s
  simp only [quote, List.length_cons, List.length_append, List.length_nil]
  exact ⟨by omega, fun h => heq (by omega)⟩

theorem quoteSegment_length {b : UInt8} {rest : GoString} {k : ℕ}
    (h : runeSize (b :: rest) = k + 1) :
    (quoteSegment (.char (b :: rest.take k))).length ≤ 6 * (k + 1) := by
  have hlength := take_length_of_runeSize h
  cases k with
  | zero =>
    simp only [List.take_zero, quoteSegment]
    unfold quoteByte
    split
    · simp
    · split <;> simp
  | succ k =>
    cases htake : rest.take (k + 1) with
    | nil => simp [htake] at hlength
    | cons c cs =>
      rw [htake] at hlength
      simp only [quoteSegment]
      have hunits : (ascii "\\u2028").length = 6 ∧ (ascii "\\u2029").length = 6 := by decide
      split
      · rw [hunits.1]
        omega
      · split
        · rw [hunits.2]
          omega
        · rw [List.length_cons, hlength]
          omega

theorem quote_length (s : GoString) : (quote s).length ≤ 6 * s.length + 2 := by
  have hbody : (quoteBody s).length ≤ 6 * s.length := by
    unfold quoteBody
    induction s using segments_induction with
    | nil => simp
    | invalid b rest h ih =>
      have hunit : (quoteSegment (.invalid b)).length = 6 := by
        change (ascii "\\ufffd").length = _
        decide
      rw [segments_invalid h, List.flatMap_cons, List.length_append, hunit, List.length_cons]
      omega
    | char b rest k h ih =>
      have hsegment := quoteSegment_length h
      have hlength := take_length_of_runeSize h
      have hsplit := congrArg List.length (List.take_append_drop k rest)
      rw [List.length_append, hlength] at hsplit
      rw [segments_char h, List.flatMap_cons, List.length_append, List.length_cons]
      omega
  simp only [quote, List.length_cons, List.length_append, List.length_nil]
  omega

end Patchli.Json
