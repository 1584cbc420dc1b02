import Patchli.Foundation.Cut
import Patchli.Foundation.Machine

/-!
# Shell scripts

A POSIX shell reads a script byte after byte. Words are made of plain bytes, quotes and
parameters in double quotes; commands are assignments and simple commands with an output
file and a here-document. A script with anything else is not read at all.
-/

namespace Patchli.Shell

open GoString Transducer

/-! ### Words and commands -/

/-- A piece of a word. -/
inductive Atom
  | lit (quoted : Bool) (b : UInt8)
  /-- A parameter in double quotes or in a here-document. -/
  | param (name : GoString)
  deriving DecidableEq

abbrev Word := List Atom

def plain (s : GoString) : Word := s.map (Atom.lit false)

def quoted (s : GoString) : Word := s.map (Atom.lit true)

def Atom.plainByte : Atom → Option UInt8
  | .lit false b => some b
  | _ => none

structure Command where
  words : List Word
  output : Option Word
  /-- The here-document. -/
  input : Option Word
  deriving DecidableEq

def Command.empty : Command := ⟨[], none, none⟩

/-- Words with a meaning of their own at the start of a command. -/
def reservedWords : List Word :=
  (["!", "case", "coproc", "do", "done", "elif", "else", "esac", "fi", "for", "function", "if",
    "in", "select", "then", "time", "until", "while"].map ascii).map plain

/-! ### The state of the reader -/

inductive Mode
  | space
  | comment
  | word (w : Word)
  /-- After a backslash. -/
  | escape (w : Word)
  | single (w : Word)
  | double (w : Word) (text : GoString)
  /-- After `<`. -/
  | less
  | document (delimiter : GoString) (text : Word) (line : GoString)
  deriving DecidableEq

/-- What the next word is. -/
inductive Role
  | argument
  | output
  | delimiter
  deriving DecidableEq

structure State where
  mode : Mode
  role : Role
  /-- The delimiter of the here-document that starts with the next line. -/
  delimiter : Option GoString
  command : Command
  deriving DecidableEq

def start : State := ⟨.space, .argument, none, Command.empty⟩

def isNameByte (b : UInt8) : Bool :=
  (0x61 ≤ b && b ≤ 0x7A) || (0x41 ≤ b && b ≤ 0x5A) || (0x30 ≤ b && b ≤ 0x39) || b = 0x5F

/-- A name does not begin with a digit. -/
def isName (s : GoString) : Bool :=
  s.all isNameByte && (s.head?.map fun b => !(0x30 ≤ b && b ≤ 0x39)).getD false

/-- Read a text with parameters. The first argument is the name that is being read. -/
def expandText : Option GoString → GoString → Option Word
  | none, [] => some []
  | none, b :: s =>
    if b = 0x24 then expandText (some []) s
    else if b = 0x5C ∨ b = 0x60 then none
    else (expandText none s).map (Atom.lit true b :: ·)
  | some name, [] => if isName name then some [.param name] else none
  | some name, b :: s =>
    if isNameByte b then expandText (some (name ++ [b])) s
    else if !isName name ∨ b = 0x5C ∨ b = 0x60 then none
    else if b = 0x24 then (expandText (some []) s).map (Atom.param name :: ·)
    else (expandText none s).map fun w => Atom.param name :: Atom.lit true b :: w

/-- Operators and expansions that are not read: dollar, backquote and ``()|&*?[~{}``. -/
def isSpecial (b : UInt8) : Bool :=
  [0x24, 0x60, 0x28, 0x29, 0x7C, 0x26, 0x2A, 0x3F, 0x5B, 0x7E, 0x7B, 0x7D].contains b

/-- Blanks, newline, semicolon and the redirection operators. -/
def isSeparator (b : UInt8) : Bool := [0x20, 0x09, 0x0A, 0x3B, 0x3C, 0x3E].contains b

/-! ### Reading -/

def emit (c : Command) : Option (List Command) :=
  if c = Command.empty then some []
  else if (c.words.head?.map reservedWords.contains).getD false then none
  else some [c]

def endWord (st : State) (w : Word) : Option State :=
  match st.role with
  | .argument =>
    some { st with mode := .space, command.words := st.command.words ++ [w] }
  | .output =>
    if st.command.output ≠ none then none
    else some { st with mode := .space, role := .argument, command.output := some w }
  | .delimiter =>
    -- a delimiter without quotes: parameters are expanded in the document
    match w.mapM Atom.plainByte with
    | none => none
    | some d =>
      if d.head? = some 0x2D then none
      else some { st with mode := .space, role := .argument, delimiter := some d }

/-- A separator behind a word or a blank. -/
def separate (st : State) (b : UInt8) : Option (State × List Command) :=
  if b = 0x20 ∨ b = 0x09 then some ({ st with mode := .space }, [])
  else if st.role ≠ .argument then none
  else if b = 0x0A then
    match st.delimiter with
    | none => (emit st.command).map fun cs => (start, cs)
    | some d => some ({ st with mode := .document d [] [] }, [])
  else if b = 0x3B then
    if st.delimiter ≠ none ∨ st.command = Command.empty then none
    else (emit st.command).map fun cs => (start, cs)
  else if b = 0x3E then some ({ st with mode := .space, role := .output }, [])
  else some ({ st with mode := .less }, [])

def continueWord (st : State) (w : Word) (b : UInt8) : Option (State × List Command) :=
  if b = 0x27 then some ({ st with mode := .single w }, [])
  else if b = 0x22 then some ({ st with mode := .double w [] }, [])
  else if b = 0x5C then some ({ st with mode := .escape w }, [])
  else if isSpecial b then none
  else some ({ st with mode := .word (w ++ [.lit false b]) }, [])

/-- One byte: the next state, and the command that is complete. -/
def step (st : State) (b : UInt8) : Option (State × List Command) :=
  if b = 0 then none
  else
    match st.mode with
    | .space =>
      if isSeparator b then separate st b
      else if b = 0x23 then some ({ st with mode := .comment }, [])
      else continueWord st [] b
    | .comment => if b = 0x0A then separate st b else some (st, [])
    | .word w =>
      -- what stands in front of a redirection could be a file descriptor
      if b = 0x3C ∨ b = 0x3E then none
      else if isSeparator b then (endWord st w).bind fun st => separate st b
      else continueWord st w b
    | .escape w =>
      if b = 0x0A then none else some ({ st with mode := .word (w ++ [.lit true b]) }, [])
    | .single w =>
      if b = 0x27 then some ({ st with mode := .word w }, [])
      else some ({ st with mode := .single (w ++ [.lit true b]) }, [])
    | .double w text =>
      if b = 0x22 then
        (expandText none text).map fun atoms => ({ st with mode := .word (w ++ atoms) }, [])
      else some ({ st with mode := .double w (text ++ [b]) }, [])
    | .less =>
      if b = 0x3C ∧ st.delimiter = none ∧ st.command.input = none then
        some ({ st with mode := .space, role := .delimiter }, [])
      else none
    | .document d text line =>
      if b ≠ 0x0A then some ({ st with mode := .document d text (line ++ [b]) }, [])
      else if line = d then
        (emit { st.command with input := some text }).map fun cs => (start, cs)
      else
        (expandText none line).map fun atoms =>
          ({ st with mode := .document d (text ++ atoms ++ [.lit true 0x0A]) [] }, [])

/-- The commands of a script, whose end counts as the end of a line. -/
def read (script : GoString) : Option (List Command) :=
  (feed step start (script ++ [0x0A])).bind fun (st, cs) => if st = start then some cs else none

/-! ### Running -/

/-- Variables in the order of the assignments. -/
abbrev Env := List (GoString × GoString)

def Env.get (env : Env) (name : GoString) : GoString := (env.reverse.lookup name).getD []

def Atom.value (env : Env) : Atom → GoString
  | .lit _ b => [b]
  | .param name => env.get name

/-- There are no parameters outside quotes, so a word is one field. -/
def Word.value (env : Env) (w : Word) : GoString := w.flatMap (Atom.value env)

/-- What a program is started with. -/
structure Invocation where
  argv : List GoString
  output : Option GoString
  input : Option GoString
  deriving DecidableEq

/-- `NAME=value`, where name and equals sign are not quoted. -/
def Word.assignment (w : Word) : Option (GoString × Word) :=
  match w.dropWhile (· ≠ Atom.lit false 0x3D) with
  | [] => none
  | _ :: value =>
    match (w.takeWhile (· ≠ Atom.lit false 0x3D)).mapM Atom.plainByte with
    | some name => if isName name then some (name, value) else none
    | none => none

/-- The program that a command without assignments starts. -/
def Command.invocation (env : Env) (c : Command) : Invocation :=
  ⟨c.words.map (Word.value env), c.output.map (Word.value env), c.input.map (Word.value env)⟩

def Command.exec (env : Env) (c : Command) : Option (Env × List Invocation) :=
  match c.words.mapM Word.assignment with
  | some assignments =>
    if c.output ≠ none ∨ c.input ≠ none then none
    else some (assignments.foldl (fun env (name, w) => env ++ [(name, Word.value env w)]) env, [])
  | none =>
    -- a variable for one command only
    if (c.words.head?.bind Word.assignment).isSome then none
    else some (env, [c.invocation env])

def execAll : Env → List Command → Option (Env × List Invocation)
  | env, [] => some (env, [])
  | env, c :: cs => do
    let (env, invocations) ← c.exec env
    let (env, invocations') ← execAll env cs
    return (env, invocations ++ invocations')

/-- The variables and the started programs of a script whose commands all succeed. -/
def run (script : GoString) : Option (Env × List Invocation) := (read script).bind (execAll [])

example : run (ascii "A='b c'; echo \"$A\"'d'\\'e # f\ncat <<EOF > /g\nx $A\nEOF\n") =
    some ([(ascii "A", ascii "b c")],
      [⟨[ascii "echo", ascii "b cd'e"], none, none⟩,
        ⟨[ascii "cat"], some (ascii "/g"), some (ascii "x b c\n")⟩]) := by
  decide +kernel

/-! ### Reading in parts -/

section

variable {st : State} {a b s : GoString} {w : Word} {cs : List Command}

theorem read_append (ha : feed step start a = some (start, cs)) (b : GoString) :
    read (a ++ b) = (read b).map (cs ++ ·) := by
  unfold read
  rw [List.append_assoc, feed_append ha]
  cases feed step start (b ++ [0x0A]) with
  | none => rfl
  | some p =>
    obtain ⟨st, cs'⟩ := p
    by_cases hst : st = start <;> simp [prepend, hst]

/-! ### Quotes -/

/-- The word that goes on with the next byte, or the empty one. -/
def Mode.word? : Mode → Option Word
  | .space => some []
  | .word w => some w
  | _ => none

theorem start_word : start.mode.word? = some [] := rfl

/-- A text in single quotes; a quote in it is written outside of them. -/
def quote (s : GoString) : GoString := ascii "'" ++ replaceByte 0x27 (ascii "'\\''") s ++ ascii "'"

theorem feed_single (hs : 0 ∉ s) (rest : GoString) :
    feed step { st with mode := .single w } (replaceByte 0x27 (ascii "'\\''") s ++ rest) =
      feed step { st with mode := .single (w ++ quoted s) } rest := by
  induction s generalizing w with
  | nil => simp [replaceByte, quoted]
  | cons b s ih =>
    rw [List.mem_cons, not_or] at hs
    have hword : w ++ quoted (b :: s) = w ++ [.lit true b] ++ quoted s := by simp [quoted]
    rw [hword, ← ih hs.2]
    by_cases hb : b = 0x27
    · -- out of the quotes, the escaped quote, into the quotes
      have htext : replaceByte 0x27 (ascii "'\\''") (b :: s) ++ rest =
          0x27 :: 0x5C :: 0x27 :: 0x27 :: (replaceByte 0x27 (ascii "'\\''") s ++ rest) := by
        simp [replaceByte, hb, ascii]
      rw [htext, hb, feed_silent rfl, feed_silent rfl, feed_silent rfl, feed_silent rfl]
    · have htext : replaceByte 0x27 (ascii "'\\''") (b :: s) ++ rest =
          b :: (replaceByte 0x27 (ascii "'\\''") s ++ rest) := by
        simp [replaceByte, hb]
      rw [htext, feed_silent]
      simp [step, hb, Ne.symm hs.1]

/-- Where a word may stand, the quoted text adds itself to the word and nothing else. -/
theorem feed_quote (hmode : st.mode.word? = some w) (hs : 0 ∉ s) (rest : GoString) :
    feed step st (quote s ++ rest) = feed step { st with mode := .word (w ++ quoted s) } rest := by
  have hopen : step st 0x27 = some ({ st with mode := .single w }, []) := by
    obtain ⟨mode, role, delimiter, command⟩ := st
    cases mode with
    | space =>
      cases hmode
      rfl
    | word v =>
      cases hmode
      rfl
    | comment | escape | single | double | less | document => cases hmode
  have htext : quote s ++ rest =
      0x27 :: (replaceByte 0x27 (ascii "'\\''") s ++ (0x27 :: rest)) := by
    simp [quote, ascii]
  rw [htext, feed_silent hopen, feed_single hs, feed_silent]
  rfl

theorem value_quoted (env : Env) (s : GoString) : Word.value env (quoted s) = s := by
  induction s with
  | nil => rfl
  | cons b s ih => exact congrArg (b :: ·) ih

theorem value_plain (env : Env) (s : GoString) : Word.value env (plain s) = s := by
  induction s with
  | nil => rfl
  | cons b s ih => exact congrArg (b :: ·) ih

theorem value_append (env : Env) (v w : Word) :
    Word.value env (v ++ w) = Word.value env v ++ Word.value env w := List.flatMap_append

theorem reserved_head : ∀ w ∈ reservedWords,
    (w.head?.map fun a => a.plainByte.isSome) = some true ∧ Atom.lit false 0x3D ∉ w := by
  decide +kernel

theorem emit_one (hw : w ∉ reservedWords) :
    emit ⟨[w], none, none⟩ = some [⟨[w], none, none⟩] := by
  simp [emit, Command.empty, hw]

theorem feed_newline (hw : w ∉ reservedWords) :
    feed step { start with mode := .word w } [0x0A] = some (start, [⟨[w], none, none⟩]) := by
  have hstep : step { start with mode := .word w } 0x0A =
      (emit ⟨[w], none, none⟩).map fun cs => (start, cs) := rfl
  simp [feed, hstep, emit_one hw]

/-- The quoted text by itself is a command of one word. -/
theorem read_quote (hs : 0 ∉ s) : read (quote s) = some [⟨[quoted s], none, none⟩] := by
  have hw : quoted s ∉ reservedWords := by
    intro hmem
    have hhead := (reserved_head _ hmem).1
    cases s with
    | nil => cases hhead
    | cons b s => cases hhead
  have hfeed := feed_quote start_word hs [0x0A]
  rw [List.nil_append, feed_newline hw] at hfeed
  simp [read, hfeed]

/-! ### Assignments -/

theorem nameByte_spec {b : UInt8} (hb : isNameByte b = true) :
    b ≠ 0 ∧ b ≠ 0x23 ∧ b ≠ 0x3C ∧ b ≠ 0x3E ∧ b ≠ 0x27 ∧ b ≠ 0x22 ∧ b ≠ 0x5C ∧ b ≠ 0x3D ∧
      isSeparator b = false ∧ isSpecial b = false := by
  revert hb
  revert b
  apply forall_byte
  decide +kernel

theorem step_nameByte (hmode : st.mode.word? = some w) {b : UInt8} (hb : isNameByte b = true) :
    step st b = some ({ st with mode := .word (w ++ [.lit false b]) }, []) := by
  obtain ⟨hnul, hhash, hless, hgreater, hsingle, hdouble, hescape, -, hseparator, hspecial⟩ :=
    nameByte_spec hb
  obtain ⟨mode, role, delimiter, command⟩ := st
  cases mode with
  | space =>
    cases hmode
    simp [step, continueWord, hnul, hhash, hsingle, hdouble, hescape, hseparator, hspecial]
  | word v =>
    cases hmode
    simp [step, continueWord, hnul, hless, hgreater, hsingle, hdouble, hescape, hseparator,
      hspecial]
  | comment | escape | single | double | less | document => cases hmode

theorem feed_name (hs : ∀ b ∈ s, isNameByte b = true) (rest : GoString) :
    feed step { st with mode := .word w } (s ++ rest) =
      feed step { st with mode := .word (w ++ plain s) } rest := by
  induction s generalizing w with
  | nil => simp [plain]
  | cons b s ih =>
    rw [List.forall_mem_cons] at hs
    have hword : w ++ plain (b :: s) = w ++ [.lit false b] ++ plain s := by simp [plain]
    rw [hword, ← ih hs.2, List.cons_append, feed_silent (step_nameByte rfl hs.1)]

/-- A variable and its value in quotes. -/
def Command.assign (name value : GoString) : Command :=
  ⟨[plain name ++ .lit false 0x3D :: quoted value], none, none⟩

/-- `NAME='value'` on a line. -/
def assignmentLine (name value : GoString) : GoString :=
  name ++ ascii "=" ++ quote value ++ ascii "\n"

theorem feed_assignmentLine {name value : GoString} (hname : isName name = true)
    (hvalue : 0 ∉ value) : feed step start (assignmentLine name value) =
      some (start, [Command.assign name value]) := by
  have hbytes : ∀ b ∈ name, isNameByte b = true :=
    List.all_eq_true.mp (Bool.and_eq_true_iff.mp hname).1
  have hw : plain name ++ .lit false 0x3D :: quoted value ∉ reservedWords := by
    intro hmem
    exact (reserved_head _ hmem).2 (by simp)
  cases name with
  | nil => cases hname
  | cons b name =>
    rw [List.forall_mem_cons] at hbytes
    have htext : assignmentLine (b :: name) value =
        b :: (name ++ 0x3D :: (quote value ++ [0x0A])) := by
      simp [assignmentLine, ascii]
    have hequals (st : State) (w : Word) : step { st with mode := .word w } 0x3D =
        some ({ st with mode := .word (w ++ [.lit false 0x3D]) }, []) := rfl
    rw [htext, feed_silent (step_nameByte start_word hbytes.1), List.nil_append,
      feed_name hbytes.2, feed_silent (hequals _ _), feed_quote rfl hvalue]
    simp only [List.append_assoc, List.cons_append]
    exact feed_newline hw

theorem assignment_eq {name : GoString} (hname : isName name = true) (w : Word) :
    Word.assignment (plain name ++ .lit false 0x3D :: w) = some (name, w) := by
  have hbytes : ∀ b ∈ name, isNameByte b = true :=
    List.all_eq_true.mp (Bool.and_eq_true_iff.mp hname).1
  have hkeep : ∀ a ∈ plain name, decide (a ≠ Atom.lit false 0x3D) = true := by
    intro a ha
    obtain ⟨b, hb, rfl⟩ := List.mem_map.mp ha
    have hne := (nameByte_spec (hbytes b hb)).2.2.2.2.2.2.2.1
    simpa using hne
  have hplain : (plain name).mapM Atom.plainByte = some name := by
    clear hname hbytes hkeep
    induction name with
    | nil => rfl
    | cons b name ih =>
      rw [plain, List.map_cons, List.mapM_cons]
      rw [plain] at ih
      rw [ih]
      rfl
  unfold Word.assignment
  rw [List.dropWhile_append_of_pos hkeep, List.takeWhile_append_of_pos hkeep,
    List.dropWhile_cons_of_neg (by simp), List.takeWhile_cons_of_neg (by simp), List.append_nil,
    hplain]
  simp [hname]

/-! ### Commands one after the other -/

theorem execAll_append (env : Env) (as bs : List Command) : execAll env (as ++ bs) =
    (execAll env as).bind fun (env, is) =>
      (execAll env bs).map fun (env, is') => (env, is ++ is') := by
  induction as generalizing env with
  | nil => simp [execAll]
  | cons c as ih =>
    simp only [List.cons_append, execAll, ih]
    cases c.exec env with
    | none => rfl
    | some p =>
      obtain ⟨env, is⟩ := p
      simp only [Option.bind_eq_bind, Option.bind_some, Option.pure_def]
      cases execAll env as with
      | none => rfl
      | some q =>
        obtain ⟨env, is'⟩ := q
        simp only [Option.bind_some]
        cases execAll env bs with
        | none => rfl
        | some r => simp

theorem exec_assignment {name : GoString} (hname : isName name = true) (env : Env)
    (value : GoString) :
    (Command.assign name value).exec env = some (env ++ [(name, value)], []) := by
  simp [Command.exec, Command.assign, assignment_eq hname, value_quoted]

theorem execAll_assignments {pairs : Env} (hnames : ∀ p ∈ pairs, isName p.1 = true)
    (env : Env) : execAll env (pairs.map fun p => Command.assign p.1 p.2) =
      some (env ++ pairs, []) := by
  induction pairs generalizing env with
  | nil => simp [execAll]
  | cons p pairs ih =>
    rw [List.forall_mem_cons] at hnames
    simp [execAll, exec_assignment hnames.1, ih hnames.2]

/-- A command that assigns nothing. -/
def Command.isProgram (c : Command) : Bool :=
  (c.words.head?.map fun w => (Word.assignment w).isNone).getD false

theorem exec_program {c : Command} (h : c.isProgram = true) (env : Env) :
    c.exec env = some (env, [c.invocation env]) := by
  obtain ⟨words, output, input⟩ := c
  cases words with
  | nil => cases h
  | cons w words =>
    have hw : Word.assignment w = none := by simpa [Command.isProgram] using h
    simp [Command.exec, hw]

theorem execAll_programs (h : ∀ c ∈ cs, c.isProgram = true) (env : Env) :
    execAll env cs = some (env, cs.map (Command.invocation env)) := by
  induction cs with
  | nil => rfl
  | cons c cs ih =>
    rw [List.forall_mem_cons] at h
    simp [execAll, exec_program h.1, ih h.2]

end

end Patchli.Shell
