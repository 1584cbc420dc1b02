import Patchli.Foundation.Rfc3339

/-!
# Timestamps survive formatting

The calendar in both directions. A timestamp that was formatted in a zone of whole minutes
parses to the instant it came from, in whole seconds, for the years of four digits.
-/

namespace Patchli.Rfc3339

open Decimal

/-! ### Years -/

/-- The day of an era is day `d` of a year that starts in March, which is year `r` of
four, `q` of the fours of a century and `c` of the centuries. -/
theorem exists_year {doe : ℤ} (hlow : 0 ≤ doe) (hhigh : doe < 146097) : ∃ c q r d : ℤ,
    doe = 36524 * c + 1461 * q + 365 * r + d ∧ (0 ≤ c ∧ c ≤ 3) ∧ (0 ≤ q ∧ q ≤ 24) ∧
    (0 ≤ r ∧ r ≤ 3) ∧ (0 ≤ d ∧ d ≤ 365) ∧ (d = 365 → r = 3 ∧ (q = 24 → c = 3)) := by
  let c := min (doe / 36524) 3
  let q := (doe - 36524 * c) / 1461
  let r := min ((doe - 36524 * c - 1461 * q) / 365) 3
  have hc : (0 ≤ c ∧ c ≤ 3) ∧ 0 ≤ doe - 36524 * c ∧ doe - 36524 * c ≤ 36524 ∧
      (doe - 36524 * c = 36524 → c = 3) := by
    omega
  have hq : (0 ≤ q ∧ q ≤ 24) ∧ 0 ≤ doe - 36524 * c - 1461 * q ∧
      doe - 36524 * c - 1461 * q ≤ 1460 := by
    omega
  refine ⟨c, q, r, doe - 36524 * c - 1461 * q - 365 * r, ?_, hc.1, hq.1, ?_, ?_, ?_⟩ <;> omega

theorem yearOfEra_eq {c q r d : ℤ} (hc : 0 ≤ c ∧ c ≤ 3) (hq : 0 ≤ q ∧ q ≤ 24)
    (hr : 0 ≤ r ∧ r ≤ 3) (hd : 0 ≤ d ∧ d ≤ 365) (hleap : d = 365 → r = 3 ∧ (q = 24 → c = 3))
    {doe : ℤ} (h : doe = 36524 * c + 1461 * q + 365 * r + d) :
    (doe - doe / 1460 + doe / 36524 - doe / 146096) / 365 = 100 * c + 4 * q + r := by
  have hrest : 1461 * q + 365 * r + d < 36524 ∨ c = 3 ∧ 1461 * q + 365 * r + d = 36524 := by
    rcases eq_or_ne d 365 with hlast | hlast
    · obtain ⟨rfl, hq4⟩ := hleap hlast
      omega
    · omega
  have hcentury : doe / 36524 - doe / 146096 = c := by
    rcases hrest with hrest | ⟨rfl, hrest⟩
    · have hdiv : doe / 36524 = c := by omega
      omega
    · omega
  have hfour : doe / 1460 = 25 * c + q + (24 * c + q + 365 * r + d) / 1460 := by omega
  have hyear : (365 * r + d - (24 * c + q + 365 * r + d) / 1460) / 365 = r := by omega
  omega

theorem dayOfYear_eq {c q r d y doe : ℤ} (hq : 0 ≤ q ∧ q ≤ 24) (hr : 0 ≤ r ∧ r ≤ 3)
    (hy : y = 100 * c + 4 * q + r) (h : doe = 36524 * c + 1461 * q + 365 * r + d) :
    doe - (365 * y + y / 4 - y / 100) = d := by
  have hfours : y / 4 = 25 * c + q := by omega
  have hcenturies : y / 100 = c := by omega
  omega

/-! ### Months -/

/-- Month and day of day `d` of a year that starts in March. -/
def monthDay (d : ℤ) : ℕ × ℕ :=
  let fromMarch := (5 * d + 2) / 153
  ((if fromMarch < 10 then fromMarch + 3 else fromMarch - 9).toNat,
    (d - (153 * fromMarch + 2) / 5 + 1).toNat)

/-- The first day of a month, counted from March. -/
def firstDay (month : ℕ) : ℕ := (153 * ((month + 9) % 12) + 2) / 5

structure IsMonthDay (d : ℤ) (month day : ℕ) : Prop where
  months : 1 ≤ month ∧ month ≤ 12
  one_le : 1 ≤ day
  early : month ≤ 2 ↔ 306 ≤ d
  eq : (firstDay month + day : ℕ) - 1 = d
  fits : ∀ year, (d = 365 → isLeap year = true) → day ≤ daysIn month year

theorem isMonthDay {d : ℤ} (hlow : 0 ≤ d) (hhigh : d ≤ 365) :
    IsMonthDay d (monthDay d).1 (monthDay d).2 := by
  obtain ⟨m, hm⟩ : ∃ m, m = (5 * d + 2) / 153 := ⟨_, rfl⟩
  obtain ⟨hmlow, hmhigh⟩ : 0 ≤ m ∧ m ≤ 11 := by omega
  simp only [monthDay, ← hm]
  -- the twelve months, each with the days that `m` leaves
  interval_cases m
  all_goals
    refine ⟨by decide, by omega, by omega, by simp [firstDay]; omega, ?_⟩
    intro year hleap
    simp [daysIn]
  all_goals try omega
  -- February
  by_cases hyear : isLeap year = true
  · simp only [hyear, if_true]
    omega
  · have hday : d ≠ 365 := fun hd => hyear (hleap hd)
    simp only [hyear]
    omega

/-! ### Dates -/

/-- A date of the calendar, and the days from 1970-01-01 to it. -/
structure IsDate (days year : ℤ) (month day : ℕ) : Prop where
  months : 1 ≤ month ∧ month ≤ 12
  one_le : 1 ≤ day
  fits : day ≤ daysIn month year
  eq : daysFromCivil year month day = days

theorem isLeap_last {era c q : ℤ} (hq : 0 ≤ q ∧ q ≤ 24)
    (hcentury : q = 24 → c = 3) : isLeap (100 * c + 4 * q + 3 + era * 400 + 1) = true := by
  simp only [isLeap, Bool.and_eq_true, Bool.or_eq_true, decide_eq_true_eq]
  omega

theorem daysFromCivil_eq {era y d : ℤ} {month day : ℕ} (hy : 0 ≤ y ∧ y < 400)
    (hmonth : IsMonthDay d month day) :
    daysFromCivil (y + era * 400 + if month ≤ 2 then 1 else 0) month day =
      era * 146097 + (y * 365 + y / 4 - y / 100 + d) - 719468 := by
  have hshift : (if month ≤ 2 then (y + era * 400 + if month ≤ 2 then 1 else 0) - 1
      else y + era * 400 + if month ≤ 2 then 1 else 0) = y + era * 400 := by
    split <;> ring
  have hera : (y + era * 400) / 400 = era := by omega
  have hyear : y + era * 400 - era * 400 = y := by ring
  have heq := hmonth.eq
  rw [firstDay] at heq
  simp only [daysFromCivil, hshift, hera, hyear, heq]

/-- A day is day `d` of year `y` of an era, whose months start in March. -/
structure IsEraDay (days era y d : ℤ) : Prop where
  year : 0 ≤ y ∧ y < 400
  day : 0 ≤ d ∧ d ≤ 365
  eq : days + 719468 = era * 146097 + (365 * y + y / 4 - y / 100 + d)
  leap : d = 365 → isLeap (y + era * 400 + 1) = true
  civil : civilFromDays days =
    (y + era * 400 + (if (monthDay d).1 ≤ 2 then 1 else 0), monthDay d)

theorem exists_eraDay (days : ℤ) : ∃ era y d, IsEraDay days era y d := by
  obtain ⟨era, hera⟩ : ∃ era, era = (days + 719468) / 146097 := ⟨_, rfl⟩
  have hlow : 0 ≤ days + 719468 - era * 146097 := by omega
  have hhigh : days + 719468 - era * 146097 < 146097 := by omega
  obtain ⟨c, q, r, d, hdoe, hc, hq, hr, hd, hleap⟩ := exists_year hlow hhigh
  have hyear := yearOfEra_eq hc hq hr hd hleap hdoe
  obtain ⟨y, hy⟩ : ∃ y, y = 100 * c + 4 * q + r := ⟨_, rfl⟩
  rw [← hy] at hyear
  have hday := dayOfYear_eq hq hr hy hdoe
  refine ⟨era, y, d, ⟨by omega, by omega⟩, hd, by linarith, ?_, ?_⟩
  · intro hlast
    obtain ⟨rfl, hcentury⟩ := hleap hlast
    rw [hy]
    exact isLeap_last hq hcentury
  · simp only [civilFromDays, ← hera, hyear, hday, monthDay, Int.toNat_le]
    rfl

theorem civilFromDays_isDate (days : ℤ) : IsDate days (civilFromDays days).1
    (civilFromDays days).2.1 (civilFromDays days).2.2 := by
  obtain ⟨era, y, d, h⟩ := exists_eraDay days
  have hmonth := isMonthDay h.day.1 h.day.2
  rw [h.civil]
  refine ⟨hmonth.months, hmonth.one_le, hmonth.fits _ ?_, ?_⟩
  · intro hlast
    have hearly : (monthDay d).1 ≤ 2 := hmonth.early.mpr (by rw [hlast]; decide)
    rw [if_pos hearly]
    exact h.leap hlast
  · rw [daysFromCivil_eq h.year hmonth]
    linarith [h.eq]

/-- The days of the years with four digits. -/
theorem year_lt {days : ℤ} (hlow : -719528 ≤ days) (hhigh : days < 2932897) :
    0 ≤ (civilFromDays days).1 ∧ (civilFromDays days).1 < 10000 := by
  obtain ⟨era, y, d, h⟩ := exists_eraDay days
  have hearly := (isMonthDay h.day.1 h.day.2).early
  obtain ⟨hy, hd, heq, -, hcivil⟩ := h
  have hfirst : 0 ≤ era ∨ era = -1 := by omega
  have hlast : era ≤ 23 ∨ era = 24 := by omega
  rw [hcivil]
  dsimp only
  constructor
  · rcases hfirst with hera | rfl <;> split <;> omega
  · rcases hlast with hera | rfl <;> split <;> omega

/-! ### Numbers of a fixed width -/

theorem pad_formatNat_succ {width : ℕ} (hwidth : 0 < width) (n : ℕ) :
    pad (width + 1) (formatNat n) = pad width (formatNat (n / 10)) ++ [digit (n % 10)] := by
  rcases Nat.lt_or_ge n 10 with hn | hn
  · rw [formatNat_lt hn, Nat.div_eq_of_lt hn, Nat.mod_eq_of_lt hn, formatNat_lt (by decide)]
    obtain ⟨k, rfl⟩ := Nat.exists_eq_add_one.mpr hwidth
    simp only [pad, List.length_singleton, Nat.add_sub_cancel, List.replicate_succ',
      List.append_assoc]
    rfl
  · rw [formatNat_ge hn]
    simp [pad]

theorem appendInt_two {n : ℕ} (hn : n < 100) :
    appendInt n 2 = [digit (n / 10), digit (n % 10)] := by
  have hlt : n / 10 < 10 := by omega
  rw [appendInt, if_neg (by omega), Int.natAbs_natCast, pad_formatNat_succ (by decide),
    formatNat_lt hlt]
  rfl

theorem appendInt_four {n : ℕ} (hn : n < 10000) : appendInt n 4 =
    [digit (n / 1000), digit (n / 100 % 10), digit (n / 10 % 10), digit (n % 10)] := by
  have hlt : n / 10 / 10 / 10 < 10 := by omega
  rw [appendInt, if_neg (by omega), Int.natAbs_natCast, pad_formatNat_succ (by decide),
    pad_formatNat_succ (by decide), pad_formatNat_succ (by decide), formatNat_lt hlt]
  simp only [Nat.div_div_eq_div_mul]
  rfl

theorem getnum_digits {a b : ℕ} (ha : a < 10) (hb : b < 10) (fixed : Bool) (s : GoString) :
    getnum fixed (digit a :: digit b :: s) = some (a * 10 + b, s) := by
  simp [getnum, isDigit_digit ha, isDigit_digit hb, digitValue_digit ha, digitValue_digit hb]

theorem getnum_appendInt {n : ℕ} (hn : n < 100) (fixed : Bool) (s : GoString) :
    getnum fixed (appendInt n 2 ++ s) = some (n, s) := by
  rw [appendInt_two hn]
  have hdigits := getnum_digits (a := n / 10) (b := n % 10) (by omega) (by omega) fixed s
  have heq : n / 10 * 10 + n % 10 = n := by omega
  rw [heq] at hdigits
  exact hdigits

theorem getnumBelow_appendInt {n bound : ℕ} (hn : n < bound) (hbound : bound ≤ 100) (fixed : Bool)
    (s : GoString) : getnumBelow bound fixed (appendInt n 2 ++ s) = some (n, s) := by
  rw [getnumBelow, getnum_appendInt (by omega)]
  simp [Option.filter, hn]

theorem parseYear_appendInt {n : ℕ} (hn : n < 10000) (s : GoString) :
    parseYear (appendInt n 4 ++ s) = some (n, s) := by
  have h (k : ℕ) : k % 10 < 10 := Nat.mod_lt k (by decide)
  have hlt : n / 1000 < 10 := by omega
  rw [appendInt_four hn]
  have hvalue : ((n / 1000 * 10 + n / 100 % 10) * 10 + n / 10 % 10) * 10 + n % 10 = n := by omega
  simp [parseYear, parseNat, isDigit_digit, digitValue_digit, h, hlt, mul_comm 10, hvalue]

/-! ### Formatted timestamps -/

theorem parseDate_formatDate {days : ℤ} (hlow : -719528 ≤ days) (hhigh : days < 2932897)
    (s : GoString) : parseDate (formatDate days ++ s) =
      some (⟨(civilFromDays days).1.toNat, (civilFromDays days).2.1, (civilFromDays days).2.2⟩,
        s) := by
  obtain ⟨hyearlow, hyearhigh⟩ := year_lt hlow hhigh
  have hdate := civilFromDays_isDate days
  obtain ⟨year, hyear⟩ := Int.eq_ofNat_of_zero_le hyearlow
  have hmonth := hdate.months
  have hday : (civilFromDays days).2.2 < 100 := by
    have hfits := hdate.fits
    unfold daysIn at hfits
    split_ifs at hfits <;> omega
  have hmonths (s : GoString) : (getnum true (appendInt (civilFromDays days).2.1 2 ++ s)).filter
      (fun p => decide (0 < p.1 ∧ p.1 ≤ 12)) = some ((civilFromDays days).2.1, s) := by
    rw [getnum_appendInt (by omega), Option.filter_some]
    exact if_pos (decide_eq_true hmonth)
  simp only [formatDate, hyear, List.append_assoc, List.cons_append, Int.toNat_natCast]
  simp only [parseDate, parseYear_appendInt (show year < 10000 by omega), Option.bind_eq_bind,
    Option.bind_some, skip, if_true, hmonths, getnum_appendInt hday]
  rfl

theorem parseFraction_plain {s : GoString} (hs : ∀ c ∈ s.head?, c ≠ 0x2E ∧ c ≠ 0x2C) :
    parseFraction s = (0, s) := by
  unfold parseFraction
  split
  · rename_i c d s
    have hc := hs c rfl
    simp [hc.1, hc.2]
  · rfl

theorem parseClock_formatClock {seconds : ℤ} (hlow : 0 ≤ seconds) (hhigh : seconds < 86400)
    {s : GoString} (hs : ∀ c ∈ s.head?, c ≠ 0x2E ∧ c ≠ 0x2C) :
    parseClock (formatClock seconds ++ s) = some (seconds * second, s) := by
  obtain ⟨n, rfl⟩ := Int.eq_ofNat_of_zero_le hlow
  have hhour : (n : ℤ) / 3600 = (n / 3600 : ℕ) := by omega
  have hmin : (n : ℤ) / 60 % 60 = (n / 60 % 60 : ℕ) := by omega
  have hsec : (n : ℤ) % 60 = (n % 60 : ℕ) := by omega
  have hsum : (n / 3600 * 60 + n / 60 % 60) * 60 + n % 60 = n := by omega
  simp only [formatClock, hhour, hmin, hsec, List.append_assoc, List.cons_append]
  simp only [parseClock, Option.bind_eq_bind, Option.bind_some, skip, if_true,
    getnumBelow_appendInt (show n / 3600 < 24 by omega) (by decide),
    getnumBelow_appendInt (show n / 60 % 60 < 60 by omega) (by decide),
    getnumBelow_appendInt (show n % 60 < 60 by omega) (by decide), parseFraction_plain hs, hsum]
  simp

/-- A zone of whole minutes, and of less than 25 hours. -/
structure WholeMinutes (offset : ℤ) : Prop where
  dvd : 60 ∣ offset
  bound : -90000 < offset ∧ offset < 90000

theorem parseZone_formatZone {offset : ℤ} (h : WholeMinutes offset) :
    parseZone (formatZone offset) = some (offset, []) := by
  obtain ⟨⟨zone, rfl⟩, hbound⟩ := h
  have hdiv : (60 * zone).tdiv 60 = zone := Int.mul_tdiv_cancel_left zone (by decide)
  have hhr : zone.natAbs / 60 < 25 := by omega
  have hmm : zone.natAbs % 60 < 61 := by omega
  have habs : zone.natAbs / 60 * 60 + zone.natAbs % 60 = zone.natAbs := by omega
  unfold formatZone
  split
  · rename_i hzero
    rw [hzero]
    rfl
  · have hmm' := getnumBelow_appendInt hmm (by decide) true []
    rw [List.append_nil] at hmm'
    have hsign : (if zone < 0 then 0x2D else 0x2B : UInt8) ≠ 0x5A := by
      split <;> decide
    simp only [hdiv, parseZone, if_neg hsign, Option.bind_eq_bind,
      getnumBelow_appendInt hhr (by decide), Option.bind_some, skip, if_true, hmm', habs]
    by_cases hneg : zone < 0
    · have hoffset : -((zone.natAbs : ℤ) * 60) = 60 * zone := by omega
      rw [if_pos hneg, if_neg (by decide), if_pos rfl, hoffset]
    · have hoffset : (zone.natAbs : ℤ) * 60 = 60 * zone := by omega
      rw [if_neg hneg, if_pos rfl, hoffset]

theorem head_formatZone (offset : ℤ) : ∀ c ∈ (formatZone offset).head?, c ≠ 0x2E ∧ c ≠ 0x2C := by
  intro c hc
  unfold formatZone at hc
  split at hc
  · cases hc
    decide
  · cases hc
    split <;> decide

theorem format_bytes (offset : ℤ) (t : Time) :
    ∀ b ∈ format offset t, isDigit b = true ∨ b ∈ ascii "+-:TZ" := by
  have hint (i : ℤ) (width : ℕ) : ∀ b ∈ appendInt i width, isDigit b = true ∨ b ∈ ascii "+-:TZ" := by
    intro b hb
    rcases appendInt_bytes i width b hb with rfl | hdigit
    · exact Or.inr (by decide +kernel)
    · exact Or.inl hdigit
  have hsigns : ∀ b ∈ [0x2B, 0x2D, 0x3A, 0x54, 0x5A], b ∈ ascii "+-:TZ" := by decide +kernel
  simp only [List.forall_mem_cons] at hsigns
  obtain ⟨hplus, hminus, hcolon, hletter, hz, -⟩ := hsigns
  have hzone : ∀ b ∈ formatZone offset, isDigit b = true ∨ b ∈ ascii "+-:TZ" := by
    unfold formatZone
    split
    · intro b hb
      rw [List.mem_singleton.mp hb]
      exact Or.inr hz
    · intro b hb
      simp only [List.mem_cons, List.mem_append] at hb
      rcases hb with rfl | hb | rfl | hb
      · split
        · exact Or.inr hminus
        · exact Or.inr hplus
      · exact hint _ _ b hb
      · exact Or.inr hcolon
      · exact hint _ _ b hb
  intro b hb
  simp only [format, formatDate, formatClock, List.mem_append, List.mem_cons] at hb
  rcases hb with (hb | rfl | hb | rfl | hb) | rfl | (hb | rfl | hb | rfl | hb) | hb
  all_goals first
    | exact hint _ _ b hb
    | exact hzone b hb
    | exact Or.inr hminus
    | exact Or.inr hcolon
    | exact Or.inr hletter

/-- The instants that fall into the years 0 to 9999 in the zone with that offset. -/
structure FourDigits (offset : ℤ) (t : Time) : Prop where
  low : -62167219200 ≤ t / second + offset
  high : t / second + offset < 253402300800

/-- Formatting keeps an instant up to the fraction of its second. -/
theorem parse_format {offset : ℤ} {t : Time} (hzone : WholeMinutes offset)
    (hyears : FourDigits offset t) : parse (format offset t) = some (t - t % second) := by
  obtain ⟨wall, hwall⟩ : ∃ wall : ℤ, wall = t / second + offset := ⟨_, rfl⟩
  have hyearlow : -62167219200 ≤ wall := hwall ▸ hyears.low
  have hyearhigh : wall < 253402300800 := hwall ▸ hyears.high
  have hlow : -719528 ≤ wall / 86400 := by omega
  have hhigh : wall / 86400 < 2932897 := by omega
  have hdate := civilFromDays_isDate (wall / 86400)
  have hyear : ((civilFromDays (wall / 86400)).1.toNat : ℤ) = (civilFromDays (wall / 86400)).1 :=
    Int.toNat_of_nonneg (year_lt hlow hhigh).1
  have htime : wall / 86400 * (86400 * second) + wall % 86400 * second - offset * second =
      t - t % second :=
    calc wall / 86400 * (86400 * second) + wall % 86400 * second - offset * second
        = (86400 * (wall / 86400) + wall % 86400 - offset) * second := by ring
      _ = second * (t / second) := by rw [Int.mul_ediv_add_emod, hwall]; ring
      _ = t - t % second := by linarith [Int.mul_ediv_add_emod t second]
  simp only [format, ← hwall, parse, Option.bind_eq_bind, Option.bind_some,
    parseDate_formatDate hlow hhigh, skip, if_true,
    parseClock_formatClock (Int.emod_nonneg wall (by decide)) (Int.emod_lt_of_pos wall (by decide))
      (head_formatZone offset), parseZone_formatZone hzone, hyear, hdate.eq, hdate.one_le,
    hdate.fits, and_self, htime]

end Patchli.Rfc3339
