import CodeCensus.Calendar.Instant
import CodeCensus.Proofs.Calendar.Date
import CodeCensus.Proofs.Digits
import Mathlib.Data.String.Basic
import Mathlib.Tactic.IntervalCases

/-!
# Days and dates in order

The date of a day is found by arithmetic.  That it is the right one can be said without: day zero is
1 January 1970, and the following day has the date that follows in the Gregorian calendar, with its months
and leap years (`dateOfDay_succ`).  To see this, a day is looked for in its year and in its month, both
counted from March on; a year begins where the days of all years before it end (`daysBefore_succ`), so that
no day lies in two of them.

Since every date comes before the next one, the dates of days are in the order of the days
(`before_dateOfDay`).  In the years 0 to 9999 all parts of a date are written in fixed widths, and then
the texts of the dates are in this order as well (`dateText_lt_iff`).
-/

namespace CodeCensus.Calendar

/-! ### The calendar -/

/-- Whether a year has a leap day. -/
def isLeap (year : Int) : Bool :=
  year % 4 = 0 && (year % 100 ≠ 0 || year % 400 = 0)

/-- The number of days of a month. -/
def monthDays (year : Int) (month : Nat) : Nat :=
  if month = 2 then if isLeap year then 29 else 28
  else if month = 4 ∨ month = 6 ∨ month = 9 ∨ month = 11 then 30
  else 31

/-- After four hundred years, the leap years are the same. -/
theorem isLeap_cycle (cycle year : Int) : isLeap (cycle * 400 + year) = isLeap year := by
  have hfour : (cycle * 400 + year) % 4 = year % 4 := by omega
  have hcentury : (cycle * 400 + year) % 100 = year % 100 := by omega
  have hcycle : (cycle * 400 + year) % 400 = year % 400 := by omega
  rw [isLeap, isLeap, hfour, hcentury, hcycle]

namespace Date

/-- The date that follows a date. -/
def next (date : Date) : Date :=
  if date.day < monthDays date.year date.month then ⟨date.year, date.month, date.day + 1⟩
  else if date.month < 12 then ⟨date.year, date.month + 1, 1⟩
  else ⟨date.year + 1, 1, 1⟩

/-- Whether a date comes before another one. -/
def Before (date other : Date) : Prop :=
  date.year < other.year ∨ date.year = other.year ∧
    (date.month < other.month ∨ date.month = other.month ∧ date.day < other.day)

variable {a b c : Date}

theorem Before.trans (hab : a.Before b) (hbc : b.Before c) : a.Before c := by
  unfold Before at *
  omega

/-- A date comes before the next one. -/
theorem before_next (date : Date) : date.Before date.next := by
  unfold next
  split
  · exact Or.inr ⟨rfl, Or.inr ⟨rfl, Nat.lt_succ_self _⟩⟩
  · split
    · exact Or.inr ⟨rfl, Or.inl (Nat.lt_succ_self _)⟩
    · exact Or.inl (Int.lt_succ _)

end Date

/-! ### Years that begin in March -/

/-- The number of days of a year that begins in March. Its leap day is that of the following year. -/
def yearDays (year : Int) : Nat :=
  if isLeap (year + 1) then 366 else 365

/-- The number of days from 1 March of the year 0 to the beginning of a year that begins in March. -/
def daysBefore (year : Int) : Int :=
  365 * year + year / 4 - year / 100 + year / 400

theorem yearDays_pos (year : Int) : 0 < yearDays year := by
  unfold yearDays
  split <;> decide

theorem yearDays_le (year : Int) : yearDays year ≤ 366 := by
  unfold yearDays
  split <;> decide

/-- From one year to the next, the days of the year are added. -/
theorem daysBefore_succ (year : Int) : daysBefore (year + 1) = daysBefore year + yearDays year := by
  by_cases leap : isLeap (year + 1)
  · rw [daysBefore, daysBefore, yearDays, if_pos leap]
    simp only [isLeap, Bool.and_eq_true, Bool.or_eq_true, decide_eq_true_eq] at leap
    omega
  · rw [daysBefore, daysBefore, yearDays, if_neg leap]
    simp only [isLeap, Bool.and_eq_true, Bool.or_eq_true, decide_eq_true_eq] at leap
    omega

/-- A year is over when a later one begins. -/
theorem daysBefore_add_yearDays_le {year other : Int} (lt : year < other) :
    daysBefore year + yearDays year ≤ daysBefore other := by
  have hmono : Monotone daysBefore := by
    refine monotone_int_of_le_succ fun year => ?_
    rw [daysBefore_succ]
    exact Int.le_add_of_nonneg_right (Int.natCast_nonneg _)
  rw [← daysBefore_succ]
  exact hmono (Int.add_one_le_of_lt lt)

/-- No day belongs to two years, or to two days of one year. -/
theorem eq_of_daysBefore_add_eq {year other : Int} {day day' : Nat} (lt : day < yearDays year)
    (lt' : day' < yearDays other) (same : daysBefore year + day = daysBefore other + day') :
    year = other ∧ day = day' := by
  have hyear : year = other := by
    rcases lt_trichotomy year other with before | rfl | after
    · have hle := daysBefore_add_yearDays_le before
      omega
    · rfl
    · have hle := daysBefore_add_yearDays_le after
      omega
  subst hyear
  exact ⟨rfl, by omega⟩

/-- The days before a year are those of the cycles of four hundred years before it, and those of the
cycle in which it lies. -/
theorem daysBefore_cycle (cycle : Int) {year : Nat} (le : year ≤ 399) :
    daysBefore (cycle * 400 + year) = cycle * cycleDays + firstDay year := by
  unfold daysBefore cycleDays firstDay
  omega

/-- A day does not lie behind its year. -/
theorem lt_firstDay_yearOfCycle {day : Nat} (lt : day < 146097) :
    day < firstDay (yearOfCycle day) + yearDays (yearOfCycle day) := by
  obtain ⟨hcentury, hfour, hfour'⟩ := yearOfCycle_div lt
  have hle := yearOfCycle_le lt
  have hyear : day - day / 1460 + day / 36524 - day / 146096 < 365 * yearOfCycle day + 365 := by
    rw [yearOfCycle]
    omega
  generalize yearOfCycle day = year at *
  by_cases leap : isLeap ((year : Int) + 1)
  · rw [yearDays, if_pos leap, firstDay]
    omega
  · rw [yearDays, if_neg leap, firstDay]
    have hcases : year % 4 ≠ 3 ∨ year = 99 ∨ year = 199 ∨ year = 299 := by
      simp only [isLeap, Bool.and_eq_true, Bool.or_eq_true, decide_eq_true_eq] at leap
      omega
    rcases hcases with hfourth | rfl | rfl | rfl <;> omega

/-- Every day lies in a year, and its date is found in this year. -/
theorem exists_dateInYear (dayNumber : Int) :
    ∃ (year : Int) (day : Nat), day < yearDays year ∧ dayNumber + epochOffset = daysBefore year + day ∧
      dateOfDay dayNumber = dateInYear year day := by
  obtain ⟨cycle, day, lt, sum⟩ := exists_cycle dayNumber
  have hfirst := firstDay_yearOfCycle_le lt
  have hlast := lt_firstDay_yearOfCycle lt
  have hleap : yearDays (cycle * 400 + yearOfCycle day) = yearDays (yearOfCycle day) := by
    rw [yearDays, yearDays, add_assoc, isLeap_cycle]
  refine ⟨cycle * 400 + yearOfCycle day, day - firstDay (yearOfCycle day), ?_, ?_, dateOfDay_eq lt sum⟩
  · rw [hleap]
    omega
  · have hbefore := daysBefore_cycle cycle (yearOfCycle_le lt)
    rw [hbefore]
    omega

/-! ### Months from March on -/

/-- The number of days from the beginning of March to the beginning of a month. Months are counted from
March on, which has the number zero. -/
def monthStart (month : Nat) : Nat :=
  (153 * month + 2) / 5

/-- The year in the calendar to which a month belongs. -/
def calendarYear (year : Int) (month : Nat) : Int :=
  if month < 10 then year else year + 1

/-- The number that a month has in the calendar. -/
def calendarMonth (month : Nat) : Nat :=
  if month < 10 then month + 3 else month - 9

/-- A day of a month, where days are counted from zero, too. -/
def dateInMonth (year : Int) (month day : Nat) : Date :=
  ⟨calendarYear year month, calendarMonth month, day + 1⟩

/-- A day of a year lies in the month whose first day is the last one before it. -/
theorem dateInYear_eq {year : Int} {month day : Nat} (le : monthStart month ≤ day)
    (lt : day < monthStart (month + 1)) :
    dateInYear year day = dateInMonth year month (day - monthStart month) := by
  have hmonth : (5 * day + 2) / 153 = month := by
    unfold monthStart at le lt
    omega
  unfold dateInYear dateInMonth calendarYear calendarMonth
  simp only [hmonth]
  split <;> rfl

/-- Before February, the months of all years have the same lengths. -/
theorem monthDays_of_lt {month : Nat} (lt : month < 11) (year : Int) :
    monthDays (calendarYear year month) (calendarMonth month) =
      monthStart (month + 1) - monthStart month := by
  interval_cases month <;> rfl

/-- February has what is left of its year. -/
theorem monthDays_february (year : Int) :
    monthDays (calendarYear year 11) (calendarMonth 11) = yearDays year - monthStart 11 := by
  change (if isLeap (year + 1) then 29 else 28) = yearDays year - 337
  unfold yearDays
  split <;> rfl

/-- Within a month, the next date is that of the next day. -/
theorem next_dateInMonth {year : Int} {month day : Nat}
    (lt : day + 1 < monthDays (calendarYear year month) (calendarMonth month)) :
    (dateInMonth year month day).next = dateInMonth year month (day + 1) := by
  rw [Date.next, dateInMonth, if_pos lt]
  rfl

/-- The month before February ends with the first day of the following month. -/
theorem next_dateInMonth_last {year : Int} {month day : Nat} (before : month < 11)
    (last : monthDays (calendarYear year month) (calendarMonth month) = day + 1) :
    (dateInMonth year month day).next = dateInMonth year (month + 1) 0 := by
  rw [Date.next, dateInMonth, if_neg (by rw [last]; exact lt_irrefl _)]
  interval_cases month <;> rfl

/-- After the last day of February comes the first one of March, with which the next year begins here. -/
theorem next_dateInMonth_february {year : Int} {day : Nat}
    (last : monthDays (calendarYear year 11) (calendarMonth 11) = day + 1) :
    (dateInMonth year 11 day).next = dateInMonth (year + 1) 0 0 := by
  rw [Date.next, dateInMonth, if_neg (by rw [last]; exact lt_irrefl _)]
  rfl

/-- Every day of a year lies in a month. -/
theorem exists_month {year : Int} {day : Nat} (lt : day < yearDays year) :
    ∃ month ≤ 11, monthStart month ≤ day ∧ day < monthStart (month + 1) := by
  have hdays := yearDays_le year
  unfold monthStart
  exact ⟨(5 * day + 2) / 153, by omega, by omega, by omega⟩

/-! ### Following days -/

/-- Inside a year, the following day has the following date. -/
theorem dateInYear_succ {year : Int} {day : Nat} (lt : day + 1 < yearDays year) :
    dateInYear year (day + 1) = (dateInYear year day).next := by
  obtain ⟨month, hmonth, hle, hlt⟩ := exists_month (Nat.lt_of_succ_lt lt)
  rw [dateInYear_eq hle hlt]
  -- Either the following day is in the same month, or it begins the next one, which is in this year, too.
  by_cases inside : day + 1 < monthStart (month + 1)
  · have hday : day + 1 - monthStart month = day - monthStart month + 1 := by omega
    rw [dateInYear_eq (by omega) inside, hday, next_dateInMonth]
    rcases Nat.lt_or_eq_of_le hmonth with before | rfl
    · rw [monthDays_of_lt before]
      omega
    · rw [monthDays_february]
      omega
  · have hstart : day + 1 = monthStart (month + 1) := by omega
    have before : month < 11 := by
      rcases Nat.lt_or_eq_of_le hmonth with before | rfl
      · exact before
      · have hdays := yearDays_le year
        have hend : monthStart (11 + 1) = 367 := rfl
        omega
    have hnext : monthStart (month + 1) < monthStart (month + 1 + 1) := by
      unfold monthStart
      omega
    rw [hstart, dateInYear_eq le_rfl hnext, Nat.sub_self, next_dateInMonth_last before]
    rw [monthDays_of_lt before]
    omega

/-- After the last day of a year comes the first one of the next year. -/
theorem dateInYear_last {year : Int} {day : Nat} (last : yearDays year = day + 1) :
    dateInYear (year + 1) 0 = (dateInYear year day).next := by
  have hdays : 365 ≤ yearDays year := by
    unfold yearDays
    split <;> decide
  have hle := yearDays_le year
  have hstart : monthStart 11 = 337 := rfl
  have hend : monthStart (11 + 1) = 367 := rfl
  have hfebruary : dateInYear year day = dateInMonth year 11 (day - monthStart 11) :=
    dateInYear_eq (by omega) (by omega)
  rw [hfebruary, next_dateInMonth_february]
  · rfl
  · rw [monthDays_february]
    omega

/-- **The following day has the following date** in the Gregorian calendar. -/
theorem dateOfDay_succ (dayNumber : Int) : dateOfDay (dayNumber + 1) = (dateOfDay dayNumber).next := by
  obtain ⟨year, day, lt, sum, hdate⟩ := exists_dateInYear dayNumber
  obtain ⟨year', day', lt', sum', hdate'⟩ := exists_dateInYear (dayNumber + 1)
  rw [hdate, hdate']
  by_cases inside : day + 1 < yearDays year
  · obtain ⟨rfl, rfl⟩ := eq_of_daysBefore_add_eq lt' inside (by push_cast; omega)
    exact dateInYear_succ inside
  · have last : yearDays year = day + 1 := by omega
    have hyear := daysBefore_succ year
    obtain ⟨rfl, rfl⟩ := eq_of_daysBefore_add_eq lt' (yearDays_pos (year + 1)) (by push_cast; omega)
    exact dateInYear_last last

/-! ### The order of days -/

/-- Later days have later dates. -/
theorem before_dateOfDay {dayNumber later : Int} (lt : dayNumber < later) :
    (dateOfDay dayNumber).Before (dateOfDay later) := by
  induction later, lt using Int.leInduction with
  | base =>
    rw [dateOfDay_succ]
    exact Date.before_next _
  | succ later _ ih =>
    rw [dateOfDay_succ]
    exact ih.trans (Date.before_next _)

/-! ### Texts of dates -/

/-- Months and days have two digits at most. -/
theorem dateOfDay_fits (dayNumber : Int) :
    (dateOfDay dayNumber).month < 10 ^ 2 ∧ (dateOfDay dayNumber).day < 10 ^ 2 := by
  obtain ⟨year, day, lt, -, hdate⟩ := exists_dateInYear dayNumber
  obtain ⟨month, hmonth, hle, hlt⟩ := exists_month lt
  rw [hdate, dateInYear_eq hle hlt, dateInMonth]
  unfold monthStart at *
  unfold calendarMonth
  constructor
  · change (if month < 10 then month + 3 else month - 9) < 10 ^ 2
    split <;> omega
  · change day - (153 * month + 2) / 5 + 1 < 10 ^ 2
    omega

/-- A year of up to four digits is filled up to four. -/
theorem yearText_of_le {year : Int} (zero : 0 ≤ year) (le : year ≤ 9999) :
    yearText year = padded 4 year.natAbs := by
  rw [yearText, if_neg (by omega), if_neg (by omega)]

/-- The texts of dates are in the order of the dates, in the years that have four digits. -/
theorem Date.text_lt_text {date other : Date} (before : date.Before other) (zero : 0 ≤ date.year)
    (le : other.year ≤ 9999) (month : other.month < 10 ^ 2) (day : other.day < 10 ^ 2) :
    date.text < other.text := by
  have hle : date.year ≤ other.year := by
    unfold Before at before
    omega
  rw [text, text, yearText_of_le zero (hle.trans le), yearText_of_le (zero.trans hle) le,
    List.append_assoc, List.append_assoc]
  rcases before with years | ⟨years, months | ⟨months, days⟩⟩
  · exact padded_append_lt (by decide) (by omega) (by omega) _ _
  · rw [years]
    refine List.append_left_lt (List.cons_lt_cons_iff.2 (Or.inr ⟨rfl, ?_⟩))
    exact padded_append_lt (by decide) months month _ _
  · rw [years, months]
    refine List.append_left_lt (List.append_left_lt (List.cons_lt_cons_iff.2 (Or.inr ⟨rfl, ?_⟩)))
    simpa using padded_append_lt (by decide) days day [] []

/-- Whether a second lies in one of the years 0 to 9999, which are written in four digits. -/
def HasPlainYear (seconds : Int) : Prop :=
  0 ≤ (dateOfDay (dayOfSecond seconds)).year ∧ (dateOfDay (dayOfSecond seconds)).year ≤ 9999

instance (seconds : Int) : Decidable (HasPlainYear seconds) :=
  inferInstanceAs (Decidable (_ ∧ _))

/-- **Days are in the order of the texts of their dates**, in the years that have four digits. -/
theorem dateText_lt_iff {seconds other : Int} (plain : HasPlainYear seconds) (plain' : HasPlainYear other) :
    dateText seconds < dateText other ↔ dayOfSecond seconds < dayOfSecond other := by
  have hlt : ∀ {early late : Int}, HasPlainYear early → HasPlainYear late →
      dayOfSecond early < dayOfSecond late → dateText early < dateText late := by
    intro early late hearly hlate lt
    obtain ⟨hmonth, hday⟩ := dateOfDay_fits (dayOfSecond late)
    rw [dateText, dateText, String.lt_iff_toList_lt, String.toList_ofList, String.toList_ofList]
    exact Date.text_lt_text (before_dateOfDay lt) hearly.1 hlate.2 hmonth hday
  refine ⟨fun texts => ?_, hlt plain plain'⟩
  rcases lt_trichotomy (dayOfSecond seconds) (dayOfSecond other) with lt | same | gt
  · exact lt
  · rw [dateText, dateText, same] at texts
    exact absurd texts (lt_irrefl _)
  · exact absurd texts (lt_asymm (hlt plain' plain gt))

/-- The texts of two dates are in the order of the days. -/
theorem dateText_le_iff {seconds other : Int} (plain : HasPlainYear seconds) (plain' : HasPlainYear other) :
    dateText seconds ≤ dateText other ↔ dayOfSecond seconds ≤ dayOfSecond other := by
  rw [← not_lt, dateText_lt_iff plain' plain, not_lt]

/-- Two seconds have the same date if and only if they lie in the same day. -/
theorem dateText_eq_iff {seconds other : Int} (plain : HasPlainYear seconds) (plain' : HasPlainYear other) :
    dateText seconds = dateText other ↔ dayOfSecond seconds = dayOfSecond other := by
  rw [le_antisymm_iff, dateText_le_iff plain plain', dateText_le_iff plain' plain, ← le_antisymm_iff]

end CodeCensus.Calendar
