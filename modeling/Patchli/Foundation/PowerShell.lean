import Patchli.Foundation.Cut
import Patchli.Foundation.Machine

/-!
# PowerShell scripts

The tokens of a script, character by character. Five characters are single quotes. Two in a
row inside a literal stand for the second, so a literal may end with a quote of another
kind than the one it began with. A script with anything else is not read at all.
-/

namespace Patchli.PowerShell

open Transducer

def apostrophe : Char := Char.ofNat 0x27

def newline : Char := Char.ofNat 0x0A

/-- The typographic single quotes. -/
def isSmartQuote (c : Char) : Bool := [0x2018, 0x2019, 0x201A, 0x201B].contains c.toNat

def isSingleQuote (c : Char) : Bool := c = apostrophe || isSmartQuote c

def isDoubleQuote (c : Char) : Bool := [0x22, 0x201C, 0x201D, 0x201E].contains c.toNat

def isNameChar (c : Char) : Bool := c.isAlphanum || c.toNat = 0x5F

/-- Letters, digits and ``_-.:/\``. -/
def isWordChar (c : Char) : Bool := isNameChar c || [0x2D, 0x2E, 0x3A, 0x2F, 0x5C].contains c.toNat

/-- ``=(){}|!;`` -/
def isSymbol (c : Char) : Bool :=
  [0x3D, 0x28, 0x29, 0x7B, 0x7D, 0x7C, 0x21, 0x3B].contains c.toNat

inductive Token
  | word (text : List Char)
  | var (name : List Char)
  | symbol (c : Char)
  /-- A text in single quotes. -/
  | literal (value : List Char)
  /-- A text in double quotes, as it stands there. -/
  | expandable (text : List Char)
  /-- The lines of an expandable here-string. -/
  | hereString (text : List Char)
  | newline
  deriving DecidableEq

inductive Mode
  | between
  | word (text : List Char)
  | var (name : List Char)
  | literal (value : List Char)
  /-- After a quote in a literal. -/
  | literalQuote (value : List Char)
  | expandable (text : List Char)
  | expandableQuote (text : List Char)
  /-- After `@`. -/
  | here
  | hereHeader
  | hereString (text line : List Char)
  deriving DecidableEq

def begin (c : Char) : Option (Mode × List Token) :=
  if c.toNat = 0x20 ∨ c.toNat = 0x09 then some (.between, [])
  else if c = newline then some (.between, [.newline])
  else if isSingleQuote c then some (.literal [], [])
  else if isDoubleQuote c then some (.expandable [], [])
  else if c.toNat = 0x24 then some (.var [], [])
  else if c.toNat = 0x40 then some (.here, [])
  else if isSymbol c then some (.between, [.symbol c])
  else if isWordChar c then some (.word [c], [])
  else none

def step (m : Mode) (c : Char) : Option (Mode × List Token) :=
  match m with
  | .between => begin c
  | .word text =>
    if isWordChar c then some (.word (text ++ [c]), [])
    else if isSingleQuote c || isDoubleQuote c then none
    else (begin c).map (prepend [.word text])
  | .var name =>
    if isNameChar c then some (.var (name ++ [c]), [])
    else if name = [] ∨ isWordChar c then none
    else (begin c).map (prepend [.var name])
  | .literal value =>
    if isSingleQuote c then some (.literalQuote value, []) else some (.literal (value ++ [c]), [])
  | .literalQuote value =>
    if isSingleQuote c then some (.literal (value ++ [c]), [])
    else (begin c).map (prepend [.literal value])
  | .expandable text =>
    -- escapes and subexpressions are not read
    if c.toNat = 0x60 ∨ c.toNat = 0x28 ∧ text.getLast?.map Char.toNat = some 0x24 then none
    else if isDoubleQuote c then some (.expandableQuote text, [])
    else some (.expandable (text ++ [c]), [])
  | .expandableQuote text =>
    if isDoubleQuote c then some (.expandable (text ++ [c]), [])
    else (begin c).map (prepend [.expandable text])
  | .here => if isDoubleQuote c then some (.hereHeader, []) else none
  | .hereHeader => if c = newline then some (.hereString [] [], []) else none
  | .hereString text line =>
    if c = newline then some (.hereString (text ++ line ++ [c]) [], [])
    else if c.toNat = 0x40 ∧ line.map isDoubleQuote = [true] then
      some (.between, [.hereString text])
    else some (.hereString text (line ++ [c]), [])

/-- The tokens of a script, whose end counts as the end of a line. -/
def tokens (script : List Char) : Option (List Token) :=
  (feed step .between (script ++ [newline])).bind fun (m, ts) =>
    if m = .between then some ts else none

/-- A text as it is written in single quotes by who knows the apostrophe only. -/
def escape (s : List Char) : List Char :=
  s.flatMap fun c => if c = apostrophe then [apostrophe, apostrophe] else [c]

example : tokens "$A = 'it''s' | x".toList = some [.var "A".toList, .symbol (Char.ofNat 0x3D),
    .literal "it's".toList, .symbol (Char.ofNat 0x7C), .word "x".toList, .newline] := by
  decide +kernel

/-! ### Literals -/

section

variable {s v rest : List Char} {c : Char} {m t : Mode} {tok : Token} {ts : List Token}

theorem smart_spec (hc : isSmartQuote c = true) : c ≠ apostrophe ∧ isSingleQuote c = true := by
  constructor
  · rintro rfl
    cases hc
  · simp [isSingleQuote, hc]

theorem apostrophe_single : isSingleQuote apostrophe = true := rfl

theorem escape_cons (c : Char) (s : List Char) :
    escape (c :: s) = (if c = apostrophe then [apostrophe, apostrophe] else [c]) ++ escape s :=
  List.flatMap_cons

theorem feed_plain (hc : isSingleQuote c = false) (rest : List Char) :
    feed step (.literal v) (c :: rest) = feed step (.literal (v ++ [c])) rest := by
  apply feed_silent
  simp [step, hc]

theorem feed_doubled {d : Char} (hc : isSingleQuote c = true) (hd : isSingleQuote d = true)
    (rest : List Char) :
    feed step (.literal v) (c :: d :: rest) = feed step (.literal (v ++ [d])) rest := by
  have hfirst : step (.literal v) c = some (.literalQuote v, []) := by simp [step, hc]
  have hsecond : step (.literalQuote v) d = some (.literal (v ++ [d]), []) := by simp [step, hd]
  rw [feed_silent hfirst, feed_silent hsecond]

theorem first_token (text : List Char) (v : List Char) :
    (feed step (.literal v) text = some (t, tok :: ts) → ∃ u, tok = .literal (v ++ u)) ∧
      (feed step (.literalQuote v) text = some (t, tok :: ts) →
        ∃ u, tok = .literal (v ++ u)) := by
  induction text generalizing v with
  | nil => exact ⟨nofun, nofun⟩
  | cons c text ih =>
    have hnext : (∃ u, tok = .literal (v ++ [c] ++ u)) → ∃ u, tok = .literal (v ++ u) := by
      rintro ⟨u, rfl⟩
      exact ⟨c :: u, by simp⟩
    by_cases hc : isSingleQuote c = true
    · have hfirst : step (.literal v) c = some (.literalQuote v, []) := by simp [step, hc]
      have hsecond : step (.literalQuote v) c = some (.literal (v ++ [c]), []) := by simp [step, hc]
      rw [feed_silent hfirst, feed_silent hsecond]
      exact ⟨(ih v).2, fun h => hnext ((ih _).1 h)⟩
    · rw [Bool.not_eq_true] at hc
      rw [feed_plain hc]
      refine ⟨fun h => hnext ((ih _).1 h), fun h => ?_⟩
      have hend : step (.literalQuote v) c = (begin c).map (prepend [.literal v]) := by
        simp [step, hc]
      cases hbegin : begin c with
      | none =>
        rw [hbegin] at hend
        rw [feed_failed hend] at h
        cases h
      | some p =>
        rw [hbegin] at hend
        rw [feed_cons hend] at h
        obtain ⟨q, -, hq⟩ := Option.map_eq_some_iff.mp h
        cases hq
        exact ⟨[], by simp⟩

theorem first_literal {text u : List Char}
    (h : feed step (.literal v) text = some (t, .literal u :: ts)) : ∃ w, u = v ++ w := by
  obtain ⟨w, hw⟩ := (first_token text v).1 h
  exact ⟨w, Token.literal.inj hw⟩

theorem literal_ended {d : Char} {u : List Char} (hc : isSingleQuote c = true)
    (hd : isSingleQuote d = false)
    (h : feed step (.literal v) (c :: d :: rest) = some (t, .literal u :: ts)) : u = v := by
  have hfirst : step (.literal v) c = some (.literalQuote v, []) := by simp [step, hc]
  have hend : step (.literalQuote v) d = (begin d).map (prepend [.literal v]) := by
    simp [step, hd]
  rw [feed_silent hfirst] at h
  cases hbegin : begin d with
  | none =>
    rw [hbegin] at hend
    rw [feed_failed hend] at h
    cases h
  | some p =>
    rw [hbegin] at hend
    rw [feed_cons hend] at h
    obtain ⟨q, -, hq⟩ := Option.map_eq_some_iff.mp h
    cases hq
    rfl

theorem escape_cons_ne (hc : c ≠ apostrophe) (s : List Char) : escape (c :: s) = c :: escape s := by
  rw [escape_cons, if_neg hc, List.singleton_append]

theorem feed_escape_cons (hc : isSmartQuote c = false) (s rest : List Char) :
    feed step (.literal v) (escape (c :: s) ++ rest) =
      feed step (.literal (v ++ [c])) (escape s ++ rest) := by
  by_cases hapostrophe : c = apostrophe
  · rw [escape_cons, if_pos hapostrophe, hapostrophe]
    exact feed_doubled apostrophe_single apostrophe_single _
  · rw [escape_cons_ne hapostrophe]
    exact feed_plain (by simp [isSingleQuote, hapostrophe, hc]) _

/-- Without typographic quotes the value is the text. -/
theorem feed_escape (hs : ∀ c ∈ s, isSmartQuote c = false) (v rest : List Char) :
    feed step (.literal v) (escape s ++ rest) = feed step (.literal (v ++ s)) rest := by
  induction s generalizing v with
  | nil => simp [escape]
  | cons c s ih =>
    rw [List.forall_mem_cons] at hs
    rw [feed_escape_cons hs.1, ih hs.2, List.append_assoc, List.singleton_append]

theorem first_char {x b : Char} {text r : List Char}
    (h : feed step (.literal (v ++ [x])) text = some (t, .literal (v ++ b :: r) :: ts)) :
    b = x := by
  obtain ⟨w, hw⟩ := first_literal h
  rw [List.append_assoc] at hw
  exact (List.cons.inj (List.append_cancel_left hw)).1

/-- A value that goes on with a typographic quote needs two of them. -/
theorem smart_pair {x b : Char} {r : List Char} (hx : isSmartQuote x = true)
    (hb : isSmartQuote b = true)
    (h : feed step (.literal v) (escape (x :: s) ++ apostrophe :: rest) =
      some (t, .literal (v ++ b :: r) :: ts)) :
    ∃ s', s = b :: s' ∧ feed step (.literal (v ++ [b])) (escape s' ++ apostrophe :: rest) =
      some (t, .literal (v ++ b :: r) :: ts) := by
  obtain ⟨hne, hquote⟩ := smart_spec hx
  have hb' : b ≠ apostrophe := (smart_spec hb).1
  rw [escape_cons_ne hne] at h
  cases s with
  | nil =>
    have h' := (feed_doubled hquote apostrophe_single rest).symm.trans h
    exact absurd (first_char h') hb'
  | cons y s =>
    by_cases hapostrophe : y = apostrophe
    · rw [escape_cons, if_pos hapostrophe] at h
      have h' := (feed_doubled hquote apostrophe_single _).symm.trans h
      exact absurd (first_char h') hb'
    · rw [escape_cons_ne hapostrophe] at h
      by_cases hy : isSingleQuote y = true
      · have h' := (feed_doubled hquote hy _).symm.trans h
        obtain rfl := first_char h'
        exact ⟨s, rfl, h'⟩
      · rw [Bool.not_eq_true] at hy
        have hv := literal_ended hquote hy h
        simp at hv

/-- The value never catches up with a text that has typographic quotes in front of it. -/
theorem value_behind (hrest : ∀ c ∈ rest.head?, isSingleQuote c = false) {p : List Char}
    (hne : p ≠ []) (hsmart : ∀ c ∈ p, isSmartQuote c = true) :
    feed step (.literal v) (escape s ++ apostrophe :: rest) ≠
      some (t, .literal (v ++ (p ++ s)) :: ts) := by
  induction hn : s.length using Nat.strong_induction_on generalizing s v p with
  | _ n ih =>
    obtain ⟨b, p, rfl⟩ := List.exists_cons_of_ne_nil hne
    obtain ⟨hb, hp⟩ := List.forall_mem_cons.mp hsmart
    rw [List.cons_append]
    intro h
    cases s with
    | nil =>
      cases rest with
      | nil =>
        have hfirst : step (.literal v) apostrophe = some (.literalQuote v, []) := rfl
        rw [escape, List.flatMap_nil, List.nil_append, feed_silent hfirst] at h
        cases h
      | cons d rest =>
        have hv := literal_ended apostrophe_single (hrest d rfl) h
        simp at hv
    | cons x s =>
      by_cases hx : isSmartQuote x = true
      · -- one more typographic quote is left over than before
        obtain ⟨s, rfl, h⟩ := smart_pair hx hb h
        have hvalue : v ++ b :: (p ++ x :: b :: s) = v ++ [b] ++ (p ++ [x, b] ++ s) := by simp
        rw [hvalue] at h
        refine ih s.length ?_ ?_ ?_ rfl h
        · simp only [List.length_cons] at hn
          omega
        · simp
        · intro c hc
          simp only [List.mem_append, List.mem_cons, List.not_mem_nil, or_false] at hc
          rcases hc with hc | rfl | rfl
          · exact hp c hc
          · exact hx
          · exact hb
      · rw [Bool.not_eq_true] at hx
        rw [feed_escape_cons hx] at h
        rw [← first_char h, hb] at hx
        cases hx

/-- Whoever reads the text back has seen no typographic quote. -/
theorem no_smart_of_value (hrest : ∀ c ∈ rest.head?, isSingleQuote c = false)
    (h : feed step (.literal v) (escape s ++ apostrophe :: rest) =
      some (t, .literal (v ++ s) :: ts)) : ∀ c ∈ s, isSmartQuote c = false := by
  induction s generalizing v with
  | nil => exact nofun
  | cons c s ih =>
    by_cases hc : isSmartQuote c = true
    · obtain ⟨s, rfl, h⟩ := smart_pair hc hc h
      have hvalue : v ++ c :: c :: s = v ++ [c] ++ ([c] ++ s) := by simp
      rw [hvalue] at h
      exact absurd h (value_behind hrest (List.cons_ne_nil _ _) (by simpa using hc))
    · rw [Bool.not_eq_true] at hc
      rw [feed_escape_cons hc] at h
      have hvalue : v ++ c :: s = v ++ [c] ++ s := by simp
      rw [hvalue] at h
      exact List.forall_mem_cons.mpr ⟨hc, ih h⟩

theorem feed_end (v rest : List Char) :
    feed step (.literal v) (apostrophe :: newline :: rest) =
      (feed step .between rest).map (prepend [.literal v, .newline]) := by
  have hfirst : step (.literal v) apostrophe = some (.literalQuote v, []) := rfl
  have hend : step (.literalQuote v) newline = some (.between, [.literal v, .newline]) := rfl
  rw [feed_silent hfirst, feed_cons hend]

/-- A literal at the end of a line is read back if it has no typographic quotes. -/
theorem feed_literal_iff :
    feed step (.literal []) (escape s ++ apostrophe :: newline :: rest) =
        some (t, .literal s :: .newline :: ts) ↔
      (∀ c ∈ s, isSmartQuote c = false) ∧ feed step .between rest = some (t, ts) := by
  have hsplit (hs : ∀ c ∈ s, isSmartQuote c = false) :
      feed step (.literal []) (escape s ++ apostrophe :: newline :: rest) =
        (feed step .between rest).map (prepend [.literal s, .newline]) := by
    rw [feed_escape hs, List.nil_append, feed_end]
  constructor
  · intro h
    have hrest : ∀ c ∈ (newline :: rest).head?, isSingleQuote c = false := by
      rintro c ⟨⟩
      rfl
    have hs := no_smart_of_value hrest h
    rw [hsplit hs] at h
    obtain ⟨⟨m, ts'⟩, hfeed, heq⟩ := Option.map_eq_some_iff.mp h
    cases heq
    exact ⟨hs, hfeed⟩
  · rintro ⟨hs, hfeed⟩
    rw [hsplit hs, hfeed]
    rfl

/-! ### Scripts in parts -/

theorem tokens_eq_some {script : List Char} : tokens script = some ts ↔
    feed step .between (script ++ [newline]) = some (.between, ts) := by
  unfold tokens
  cases feed step .between (script ++ [newline]) with
  | none => simp
  | some p =>
    obtain ⟨m, ts'⟩ := p
    by_cases hm : m = .between <;> simp [hm]

theorem map_prepend_iff {o : Option (Mode × List Token)} {out : List Token} :
    o.map (prepend out) = some (t, out ++ ts) ↔ o = some (t, ts) := by
  cases o with
  | none => simp
  | some p => simp [prepend, Prod.ext_iff]

theorem tokens_append {opening script : List Char} {first : List Token}
    (h : feed step .between opening = some (.between, first)) :
    tokens (opening ++ script) = some (first ++ ts) ↔ tokens script = some ts := by
  rw [tokens_eq_some, tokens_eq_some, List.append_assoc, feed_append h]
  exact map_prepend_iff

theorem tokens_literal_iff {opening script : List Char} {first : List Token}
    (h : feed step .between opening = some (.literal [], first)) :
    tokens (opening ++ (escape s ++ [apostrophe, newline]) ++ script) =
        some (first ++ .literal s :: .newline :: ts) ↔
      (∀ c ∈ s, isSmartQuote c = false) ∧ tokens script = some ts := by
  have htext : opening ++ (escape s ++ [apostrophe, newline]) ++ script ++ [newline] =
      opening ++ (escape s ++ apostrophe :: newline :: (script ++ [newline])) := by simp
  rw [tokens_eq_some, tokens_eq_some, htext, feed_append h]
  exact map_prepend_iff.trans feed_literal_iff

theorem tokens_quoted_iff (s : List Char) :
    tokens (apostrophe :: (escape s ++ [apostrophe])) = some [.literal s, .newline] ↔
      ∀ c ∈ s, isSmartQuote c = false := by
  have hopen : step .between apostrophe = some (.literal [], []) := rfl
  have htext : apostrophe :: (escape s ++ [apostrophe]) ++ [newline] =
      apostrophe :: (escape s ++ apostrophe :: newline :: []) := by simp
  rw [tokens_eq_some, htext, feed_silent hopen, feed_literal_iff]
  simp [feed]

end

end Patchli.PowerShell
