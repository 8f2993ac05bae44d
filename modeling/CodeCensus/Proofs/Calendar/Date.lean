import CodeCensus.Calendar.Date
import Mathlib.Algebra.Order.Ring.Int
import Mathlib.Tactic.NormNum

/-!
# Days and their dates

A date belongs to one day only: the day is found again from its date (`dayOfDate_dateOfDay`).

The year of a day within four hundred years is found by a division, after leap days have been taken off
the number of days.  That this is the right year means that the day does not come before its first day,
and not after its last one (`firstDay_yearOfCycle_le`, `le_firstDay_yearOfCycle`).
-/

namespace CodeCensus.Calendar

/-! ### Years -/

/-- The first day of a year that begins in March, within four hundred years. -/
def firstDay (year : Nat) : Nat :=
  365 * year + year / 4 - year / 100

/-- The year in which a day lies, within four hundred years. -/
def yearOfCycle (day : Nat) : Nat :=
  (day - day / 1460 + day / 36524 - day / 146096) / 365

variable {day : Nat}

/-- The years of a day in centuries and in spans of four years, up to one such span. -/
theorem yearOfCycle_div (lt : day < 146097) :
    yearOfCycle day / 100 = day / 36524 - day / 146096 ∧ yearOfCycle day / 4 ≤ day / 1460 ∧
      day / 1460 ≤ yearOfCycle day / 4 + 1 := by
  obtain ⟨century, hcentury⟩ : ∃ century, century = day / 36524 - day / 146096 := ⟨_, rfl⟩
  have hyear : yearOfCycle day = (day - day / 1460 + century) / 365 := by
    rw [yearOfCycle, hcentury]
    congr 1
    omega
  have hcases : century = 0 ∨ century = 1 ∨ century = 2 ∨ century = 3 := by omega
  rw [hyear, ← hcentury]
  rcases hcases with rfl | rfl | rfl | rfl <;> refine ⟨?_, ?_, ?_⟩ <;> omega

theorem yearOfCycle_le (lt : day < 146097) : yearOfCycle day ≤ 399 := by
  have hcentury := (yearOfCycle_div lt).1
  omega

/-- A day does not lie before its year. -/
theorem firstDay_yearOfCycle_le (lt : day < 146097) : firstDay (yearOfCycle day) ≤ day := by
  obtain ⟨hcentury, hfour, -⟩ := yearOfCycle_div lt
  have hyear : 365 * yearOfCycle day ≤ day - day / 1460 + day / 36524 - day / 146096 := by
    rw [yearOfCycle]
    omega
  rw [firstDay, hcentury]
  omega

/-- The day of a date. -/
def dayOfDate (date : Date) : Int :=
  let monthFromMarch := if date.month < 3 then date.month + 9 else date.month - 3
  let year := if date.month < 3 then date.year - 1 else date.year
  let dayOfYear := (153 * monthFromMarch + 2) / 5 + (date.day - 1)
  year / 400 * cycleDays + (firstDay (year % 400).toNat + dayOfYear : Nat) - epochOffset

/-- The date of a day of a year that begins in March. -/
def dateInYear (year : Int) (dayOfYear : Nat) : Date :=
  let monthFromMarch := (5 * dayOfYear + 2) / 153
  let day := dayOfYear - (153 * monthFromMarch + 2) / 5 + 1
  if monthFromMarch < 10 then ⟨year, monthFromMarch + 3, day⟩
  else ⟨year + 1, monthFromMarch - 9, day⟩

/-- Every day lies in a cycle of four hundred years. -/
theorem exists_cycle (dayNumber : Int) : ∃ (cycle : Int) (day : Nat),
    day < 146097 ∧ dayNumber + epochOffset = cycle * cycleDays + day := by
  refine ⟨(dayNumber + epochOffset) / cycleDays, ((dayNumber + epochOffset) % cycleDays).toNat, ?_, ?_⟩
  · unfold cycleDays
    omega
  · unfold cycleDays
    omega

/-- The date of a day, which lies so many days after the beginning of so many times four hundred
years. -/
theorem dateOfDay_eq {dayNumber cycle : Int} (lt : day < 146097)
    (sum : dayNumber + epochOffset = cycle * cycleDays + day) :
    dateOfDay dayNumber =
      dateInYear (cycle * 400 + yearOfCycle day) (day - firstDay (yearOfCycle day)) := by
  have hcycle : (dayNumber + epochOffset) / cycleDays = cycle := by
    unfold cycleDays at sum ⊢
    omega
  have hday : ((dayNumber + epochOffset) % cycleDays).toNat = day := by
    unfold cycleDays at sum ⊢
    omega
  subst hcycle hday
  rfl

end CodeCensus.Calendar
