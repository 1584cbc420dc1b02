import Patchli.Foundation.Decimal

/-!
# Timestamps in RFC 3339

`Time.Format` and `time.Parse` of Go for the layout `2006-01-02T15:04:05Z07:00`. The
parser is as lenient as Go's: the hour may have one digit, and the seconds may have a
fraction.
-/

namespace Patchli.Rfc3339

open Decimal

/-! ### Calendar -/

/-- Days from 1970-01-01 to a date of the Gregorian calendar. The year starts in March. -/
def daysFromCivil (year : ℤ) (month day : ℕ) : ℤ :=
  let y := if month ≤ 2 then year - 1 else year
  let era := y / 400
  let yearOfEra := y - era * 400
  let fromMarch : ℕ := (month + 9) % 12
  let dayOfYear : ℤ := ((153 * fromMarch + 2) / 5 + day : ℕ) - 1
  era * 146097 + (yearOfEra * 365 + yearOfEra / 4 - yearOfEra / 100 + dayOfYear) - 719468

/-- The date that many days after 1970-01-01. -/
def civilFromDays (days : ℤ) : ℤ × ℕ × ℕ :=
  let z := days + 719468
  let era := z / 146097
  let dayOfEra := z - era * 146097
  let yearOfEra := (dayOfEra - dayOfEra / 1460 + dayOfEra / 36524 - dayOfEra / 146096) / 365
  let dayOfYear := dayOfEra - (365 * yearOfEra + yearOfEra / 4 - yearOfEra / 100)
  let fromMarch := (5 * dayOfYear + 2) / 153
  let day := dayOfYear - (153 * fromMarch + 2) / 5 + 1
  let month := if fromMarch < 10 then fromMarch + 3 else fromMarch - 9
  (yearOfEra + era * 400 + if month ≤ 2 then 1 else 0, month.toNat, day.toNat)

def isLeap (year : ℤ) : Bool := year % 4 = 0 && (year % 100 ≠ 0 || year % 400 = 0)

def daysIn (month : ℕ) (year : ℤ) : ℕ :=
  if month = 2 then if isLeap year then 29 else 28
  else if month = 4 ∨ month = 6 ∨ month = 9 ∨ month = 11 then 30 else 31

/-! ### Formatting -/

def pad (width : ℕ) (digits : GoString) : GoString :=
  List.replicate (width - digits.length) 0x30 ++ digits

/-- `appendInt` -/
def appendInt (i : ℤ) (width : ℕ) : GoString :=
  if i < 0 then 0x2D :: pad width (formatNat i.natAbs) else pad width (formatNat i.natAbs)

/-- The offset is in seconds. -/
def formatZone (offset : ℤ) : GoString :=
  if offset = 0 then ascii "Z"
  else
    let zone := (offset.tdiv 60).natAbs
    (if offset.tdiv 60 < 0 then 0x2D else 0x2B) ::
      (appendInt (zone / 60 : ℕ) 2 ++ 0x3A :: appendInt (zone % 60 : ℕ) 2)

def formatDate (days : ℤ) : GoString :=
  let (year, month, day) := civilFromDays days
  appendInt year 4 ++ 0x2D :: (appendInt month 2 ++ 0x2D :: appendInt day 2)

def formatClock (seconds : ℤ) : GoString :=
  appendInt (seconds / 3600) 2 ++ 0x3A :: (appendInt (seconds / 60 % 60) 2 ++
    0x3A :: appendInt (seconds % 60) 2)

/-- `t.Format(time.RFC3339)` in the zone with that offset. -/
def format (offset : ℤ) (t : Time) : GoString :=
  let wall := t / second + offset
  formatDate (wall / 86400) ++ 0x54 :: (formatClock (wall % 86400) ++ formatZone offset)

/-! ### Parsing -/

def skip (c : UInt8) : GoString → Option GoString
  | [] => none
  | d :: s => if d = c then some s else none

def getnum (fixed : Bool) : GoString → Option (ℕ × GoString)
  | [] => none
  | [d] => if isDigit d && !fixed then some (digitValue d, []) else none
  | d :: e :: s =>
    if !isDigit d then none
    else if isDigit e then some (digitValue d * 10 + digitValue e, s)
    else if fixed then none
    else some (digitValue d, e :: s)

/-- A number below a bound. -/
def getnumBelow (bound : ℕ) (fixed : Bool) (s : GoString) : Option (ℕ × GoString) :=
  (getnum fixed s).filter fun p => decide (p.1 < bound)

def parseYear (s : GoString) : Option (ℕ × GoString) :=
  if s.length < 4 then none else (parseNat (s.take 4)).map fun year => (year, s.drop 4)

/-- A fraction of a second, in nanoseconds; digits after the ninth are dropped. -/
def parseFraction : GoString → ℕ × GoString
  | c :: d :: s =>
    if (c = 0x2E || c = 0x2C) && isDigit d then
      let digits := (d :: s).takeWhile isDigit
      let nine := digits.take 9
      ((parseNat nine).getD 0 * 10 ^ (9 - nine.length), (d :: s).dropWhile isDigit)
    else (0, c :: d :: s)
  | s => (0, s)

/-- The zone's offset in seconds. -/
def parseZone : GoString → Option (ℤ × GoString)
  | [] => none
  | c :: s =>
    if c = 0x5A then some (0, s)
    else do
      let (hr, s) ← getnumBelow 25 true s
      let s ← skip 0x3A s
      let (mm, s) ← getnumBelow 61 true s
      let offset : ℤ := (hr * 60 + mm : ℕ) * 60
      if c = 0x2B then some (offset, s) else if c = 0x2D then some (-offset, s) else none

structure Date where
  year : ℕ
  month : ℕ
  day : ℕ

def parseDate (s : GoString) : Option (Date × GoString) := do
  let (year, s) ← parseYear s
  let s ← skip 0x2D s
  let (month, s) ← (getnum true s).filter fun p => decide (0 < p.1 ∧ p.1 ≤ 12)
  let s ← skip 0x2D s
  let (day, s) ← getnum true s
  return (⟨year, month, day⟩, s)

/-- The time of the day, in nanoseconds. -/
def parseClock (s : GoString) : Option (Duration × GoString) := do
  let (hour, s) ← getnumBelow 24 false s
  let s ← skip 0x3A s
  let (min, s) ← getnumBelow 60 true s
  let s ← skip 0x3A s
  let (sec, s) ← getnumBelow 60 true s
  let (nsec, s) := parseFraction s
  return (((hour * 60 + min) * 60 + sec : ℕ) * second + nsec, s)

/-- `time.Parse(time.RFC3339, s)` -/
def parse (s : GoString) : Option Time := do
  let (date, s) ← parseDate s
  let s ← skip 0x54 s
  let (clock, s) ← parseClock s
  let (offset, s) ← parseZone s
  if s = [] ∧ 1 ≤ date.day ∧ date.day ≤ daysIn date.month date.year then
    some (daysFromCivil date.year date.month date.day * (86400 * second) + clock - offset * second)
  else none

example : parse (ascii "2024-02-29T23:59:59.5+01:00") = some (1709247599 * second + 500000000) := by
  decide +kernel

example : format 3600 (1709247599 * second) = ascii "2024-02-29T23:59:59+01:00" := by
  decide +kernel

/-! ### What the parser consumes -/

/-- `r` is what is left of `s` after some bytes with `k` colons among them. -/
def Consumed (k : ℕ) (s r : GoString) : Prop := ∃ front, s = front ++ r ∧ front.count 0x3A = k

theorem Consumed.trans {j k : ℕ} {s r t : GoString} (hs : Consumed j s r) (hr : Consumed k r t) :
    Consumed (j + k) s t := by
  obtain ⟨front, rfl, rfl⟩ := hs
  obtain ⟨middle, rfl, rfl⟩ := hr
  exact ⟨front ++ middle, by rw [List.append_assoc], List.count_append⟩

theorem Consumed.suffix {k : ℕ} {s r : GoString} (h : Consumed k s r) : r <:+ s := by
  obtain ⟨front, rfl, -⟩ := h
  exact List.suffix_append ..

theorem consumed_digits (ds r : GoString) (hds : ∀ d ∈ ds, isDigit d = true) :
    Consumed 0 (ds ++ r) r := by
  refine ⟨ds, rfl, List.count_eq_zero.mpr fun hcolon => ?_⟩
  have hdigit := hds _ hcolon
  revert hdigit
  decide

theorem skip_eq_some {c : UInt8} {s r : GoString} (h : skip c s = some r) : s = c :: r := by
  unfold skip at h
  split at h
  · cases h
  · split_ifs at h with hc
    cases h
    rw [hc]

theorem skip_consumed {c : UInt8} {s r : GoString} (h : skip c s = some r) :
    Consumed (if c = 0x3A then 1 else 0) s r := by
  rw [skip_eq_some h]
  exact ⟨[c], rfl, by simp [List.count_singleton]⟩

theorem getnum_consumed {fixed : Bool} {s r : GoString} {n : ℕ}
    (h : getnum fixed s = some (n, r)) : Consumed 0 s r := by
  unfold getnum at h
  split at h
  · cases h
  · rename_i d
    split_ifs at h with hd
    cases h
    simp only [Bool.and_eq_true] at hd
    exact consumed_digits [d] [] (by simpa using hd.1)
  · rename_i d e s
    split_ifs at h with hd he hfixed
    · cases h
      exact consumed_digits [d, e] _ (by simpa [he] using hd)
    · cases h
      exact consumed_digits [d] _ (by simpa using hd)

theorem getnumBelow_consumed {bound : ℕ} {fixed : Bool} {s r : GoString} {n : ℕ}
    (h : getnumBelow bound fixed s = some (n, r)) : Consumed 0 s r :=
  getnum_consumed (Option.filter_eq_some_iff.mp h).1

theorem parseYear_consumed {s r : GoString} {year : ℕ} (h : parseYear s = some (year, r)) :
    Consumed 0 s r := by
  unfold parseYear at h
  split_ifs at h
  obtain ⟨n, hn, h⟩ := Option.map_eq_some_iff.mp h
  obtain rfl : s.drop 4 = r := (Prod.mk.inj h).2
  simp only [parseNat, Option.ite_none_right_eq_some] at hn
  have hfront := consumed_digits _ (s.drop 4) (List.all_eq_true.mp hn.1.2)
  rwa [List.take_append_drop] at hfront

theorem parseDate_consumed {s r : GoString} {date : Date} (h : parseDate s = some (date, r)) :
    Consumed 0 s r := by
  simp only [parseDate, Option.bind_eq_bind, Option.bind_eq_some_iff, Option.pure_def,
    Option.some.injEq, Prod.mk.injEq] at h
  obtain ⟨⟨year, s₁⟩, h₁, s₂, h₂, ⟨month, s₃⟩, h₃, s₄, h₄, ⟨day, s₅⟩, h₅, -, rfl⟩ := h
  have hyear := parseYear_consumed h₁
  have hmonth := getnum_consumed (Option.filter_eq_some_iff.mp h₃).1
  exact hyear.trans ((skip_consumed h₂).trans (hmonth.trans ((skip_consumed h₄).trans
    (getnum_consumed h₅))))

theorem parseFraction_consumed (s : GoString) : Consumed 0 s (parseFraction s).2 := by
  have hnone (s : GoString) : Consumed 0 s s := ⟨[], rfl, rfl⟩
  unfold parseFraction
  split
  · rename_i c d s
    split_ifs with hc
    · have hpoint : Consumed 0 (c :: d :: s) (d :: s) := by
        simp only [Bool.and_eq_true, Bool.or_eq_true, decide_eq_true_eq] at hc
        refine ⟨[c], rfl, ?_⟩
        rcases hc.1 with rfl | rfl <;> decide
      have hdigits : ∀ b ∈ (d :: s).takeWhile isDigit, isDigit b = true :=
        List.all_eq_true.mp List.all_takeWhile
      have hrest := consumed_digits _ ((d :: s).dropWhile isDigit) hdigits
      rw [List.takeWhile_append_dropWhile] at hrest
      exact hpoint.trans hrest
    · exact hnone _
  · exact hnone _

theorem parseClock_consumed {s r : GoString} {clock : Duration}
    (h : parseClock s = some (clock, r)) : Consumed 2 s r := by
  simp only [parseClock, Option.bind_eq_bind, Option.bind_eq_some_iff, Option.pure_def,
    Option.some.injEq, Prod.mk.injEq] at h
  obtain ⟨⟨hour, s₁⟩, h₁, s₂, h₂, ⟨min, s₃⟩, h₃, s₄, h₄, ⟨sec, s₅⟩, h₅, -, rfl⟩ := h
  exact (getnumBelow_consumed h₁).trans ((skip_consumed h₂).trans
    ((getnumBelow_consumed h₃).trans ((skip_consumed h₄).trans
      ((getnumBelow_consumed h₅).trans (parseFraction_consumed _)))))

theorem parseZone_consumed {s r : GoString} {offset : ℤ} (h : parseZone s = some (offset, r)) :
    0x5A ∈ s ∧ Consumed 0 s r ∨ Consumed 1 s r := by
  unfold parseZone at h
  split at h
  · cases h
  · rename_i c s
    by_cases hc : c = 0x5A
    · simp only [hc, if_true, Option.some.injEq, Prod.mk.injEq] at h
      obtain ⟨-, rfl⟩ := h
      exact Or.inl ⟨by simp [hc], [c], rfl, by rw [hc]; decide⟩
    · simp only [hc, if_false, Option.bind_eq_bind, Option.bind_eq_some_iff] at h
      obtain ⟨⟨hr, s₁⟩, h₁, s₂, h₂, ⟨mm, s₃⟩, h₃, h⟩ := h
      have hsign : [c].count 0x3A = 0 ∧ s₃ = r := by
        dsimp only at h
        split_ifs at h with hplus hminus
        · cases h
          exact ⟨by rw [hplus]; decide, rfl⟩
        · cases h
          exact ⟨by rw [hminus]; decide, rfl⟩
      obtain ⟨hcolon, rfl⟩ := hsign
      have hfront : Consumed 0 (c :: s) s := ⟨[c], rfl, hcolon⟩
      exact Or.inr (hfront.trans ((getnumBelow_consumed h₁).trans ((skip_consumed h₂).trans
        (getnumBelow_consumed h₃))))

theorem mem_of_parse {s : GoString} {t : Time} (h : parse s = some t) : 0x54 ∈ s := by
  simp only [parse, Option.bind_eq_bind, Option.bind_eq_some_iff] at h
  obtain ⟨⟨date, r⟩, hdate, r', hskip, -⟩ := h
  have hr : r = 0x54 :: r' := skip_eq_some hskip
  apply (parseDate_consumed hdate).suffix.subset
  rw [hr]
  exact List.mem_cons_self ..

/-- A timestamp that parses has two colons and the letter for no offset, or three
colons. -/
theorem count_of_parse {s : GoString} {t : Time} (h : parse s = some t) :
    0x5A ∈ s ∧ s.count 0x3A = 2 ∨ s.count 0x3A = 3 := by
  simp only [parse, Option.bind_eq_bind, Option.bind_eq_some_iff] at h
  obtain ⟨⟨date, s₁⟩, h₁, s₂, h₂, ⟨clock, s₃⟩, h₃, ⟨offset, s₄⟩, h₄, h⟩ := h
  simp only [Option.ite_none_right_eq_some] at h
  obtain ⟨⟨rfl, -⟩, -⟩ := h
  have hclock : Consumed 2 s s₃ := (parseDate_consumed h₁).trans
    ((skip_consumed h₂).trans (parseClock_consumed h₃))
  have hcount {k : ℕ} (hs : Consumed k s []) : s.count 0x3A = k := by
    obtain ⟨front, hfront, hk⟩ := hs
    rwa [hfront, List.append_nil]
  rcases parseZone_consumed h₄ with ⟨hz, hzone⟩ | hzone
  · exact Or.inl ⟨hclock.suffix.subset hz, hcount (hclock.trans hzone)⟩
  · exact Or.inr (hcount (hclock.trans hzone))

/-! ### The bytes of a formatted timestamp -/

theorem appendInt_bytes (i : ℤ) (width : ℕ) : ∀ b ∈ appendInt i width, b = 0x2D ∨ isDigit b := by
  have hpad : ∀ b ∈ pad width (formatNat i.natAbs), isDigit b = true := by
    intro b hb
    rcases List.mem_append.mp hb with hb | hb
    · rw [List.eq_of_mem_replicate hb]
      rfl
    · exact formatNat_digits _ b hb
  unfold appendInt
  split
  · intro b hb
    rcases List.mem_cons.mp hb with hb | hb
    · exact Or.inl hb
    · exact Or.inr (hpad b hb)
  · exact fun b hb => Or.inr (hpad b hb)

theorem not_mem_appendInt {c : UInt8} (hminus : c ≠ 0x2D) (hdigit : isDigit c = false) (i : ℤ)
    (width : ℕ) : c ∉ appendInt i width := by
  intro hc
  rcases appendInt_bytes i width c hc with h | h
  · exact hminus h
  · rw [hdigit] at h
    cases h

theorem format_eq (offset : ℤ) (t : Time) : ∃ date rest,
    format offset t = date ++ 0x54 :: rest ∧ 0x3A ∉ date ∧ 0x54 ∉ rest := by
  refine ⟨_, _, rfl, ?_, ?_⟩
  · have hint (i : ℤ) (width : ℕ) : 0x3A ∉ appendInt i width :=
      not_mem_appendInt (by decide) (by decide) i width
    simp [formatDate, hint]
  · have hint (i : ℤ) (width : ℕ) : 0x54 ∉ appendInt i width :=
      not_mem_appendInt (by decide) (by decide) i width
    unfold formatZone
    split
    · simp [formatClock, hint, ascii]
    · simp only [formatClock, List.mem_append, List.mem_cons, hint, false_or, or_false, not_or]
      refine ⟨⟨by decide, by decide⟩, ?_, by decide⟩
      split <;> decide

/-- A formatted timestamp has two colons, or three and no letter for an offset. -/
theorem count_format (offset : ℤ) (t : Time) :
    (format offset t).count 0x3A = 2 ∨
      (format offset t).count 0x3A = 3 ∧ 0x5A ∉ format offset t := by
  have hcount (i : ℤ) (width : ℕ) : (appendInt i width).count 0x3A = 0 :=
    List.count_eq_zero.mpr (not_mem_appendInt (by decide) (by decide) i width)
  have hz (i : ℤ) (width : ℕ) : 0x5A ∉ appendInt i width :=
    not_mem_appendInt (by decide) (by decide) i width
  unfold format formatZone
  split
  · left
    simp [formatDate, formatClock, hcount, ascii]
  · right
    have hsign : (if offset.tdiv 60 < 0 then 0x2D else 0x2B : UInt8) ≠ 0x3A ∧
        (if offset.tdiv 60 < 0 then 0x2D else 0x2B : UInt8) ≠ 0x5A := by
      split <;> decide
    constructor
    · simp [formatDate, formatClock, hcount, hsign.1]
    · simp [formatDate, formatClock, hz, hsign.2.symm]

end Patchli.Rfc3339
