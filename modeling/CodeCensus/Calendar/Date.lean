/-!
# Dates

Days and their dates in the Gregorian calendar, which is taken to hold at all times. Days are counted
from 1 January 1970, the day with number zero, in both directions.

The date of a day is found in years that begin in March. The leap day is then the last day of its
year, so that the length of a month no longer depends on the year, and days are counted in spans of
four hundred years, all of which have the same length.
-/

namespace CodeCensus.Calendar

/-- A date. The year before the year 1 is the year 0. -/
structure Date where
  year : Int
  month : Nat
  day : Nat
  deriving DecidableEq, Repr

/-- The number of days in four hundred years. -/
def cycleDays : Int := 146097

/-- The number of days from 1 March of the year 0 to 1 January 1970. -/
def epochOffset : Int := 719468

/-- The date of a day. -/
def dateOfDay (dayNumber : Int) : Date :=
  let sinceMarch := dayNumber + epochOffset
  let cycle := sinceMarch / cycleDays
  let dayOfCycle := (sinceMarch % cycleDays).toNat
  let yearOfCycle :=
    (dayOfCycle - dayOfCycle / 1460 + dayOfCycle / 36524 - dayOfCycle / 146096) / 365
  let dayOfYear := dayOfCycle - (365 * yearOfCycle + yearOfCycle / 4 - yearOfCycle / 100)
  let monthFromMarch := (5 * dayOfYear + 2) / 153
  let day := dayOfYear - (153 * monthFromMarch + 2) / 5 + 1
  let year := cycle * 400 + yearOfCycle
  if monthFromMarch < 10 then ⟨year, monthFromMarch + 3, day⟩
  else ⟨year + 1, monthFromMarch - 9, day⟩

/-! ### Writing dates -/

/-- The decimal digits of a number, with zeros in front to the given width. -/
def padded (width n : Nat) : List Char :=
  let digits := Nat.toDigits 10 n
  List.replicate (width - digits.length) '0' ++ digits

/-- A year in four digits. A year before 0 or after 9999 is written with its sign. -/
def yearText (year : Int) : List Char :=
  if year < 0 then '-' :: padded 4 year.natAbs
  else if 9999 < year then '+' :: padded 4 year.natAbs
  else padded 4 year.natAbs

/-- A date with hyphens. -/
def Date.text (date : Date) : List Char :=
  yearText date.year ++ '-' :: padded 2 date.month ++ '-' :: padded 2 date.day

end CodeCensus.Calendar
