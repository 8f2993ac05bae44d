import CodeCensus.Text.Scanner
import CodeCensus.Toml.Strings
import CodeCensus.Toml.Value

/-!
# TOML numbers, dates and times

Numbers may have single underscores between their digits. Integers have 64 bits. A float that is too
large is no value; one that is too small in the same way is the negative infinity.
-/

namespace CodeCensus.Toml

open Text (Scanner)
open Text.Scanner

/-! ### Digits -/

/-- Digits with single underscores between them, which are left out. -/
def digits (isDigit : Char → Bool) : Scanner (List Char) := do
  let first ← satisfy isDigit
  return first :: (← many (satisfy isDigit <|> do char '_'; satisfy isDigit))

/-- The number that some digits stand for. -/
def numberOf (base : Nat) (ds : List Char) : Nat :=
  ds.foldl (fun n d => base * n + hexValue d) 0

/-- A sign, if there is one; whether it is a minus. -/
def sign : Scanner Bool := do
  let found ← maybe (satisfy fun c => c == '+' || c == '-')
  return found == some '-'

/-- The digits of a decimal integer: a zero, or digits that do not begin with one. -/
def decimalDigits : Scanner (List Char) :=
  (do before (· != '0'); digits Char.isDigit) <|> do char '0'; return ['0']

/-! ### Integers -/

/-- An integer, if it has no more than 64 bits. -/
def integerOf (value : Int) : Scanner Value :=
  if -Int.pow 2 63 ≤ value ∧ value < Int.pow 2 63 then return .integer value else failure

/-- An integer in a base other than ten, which has no sign. -/
def prefixedInteger : Scanner Value := do
  char '0'
  match ← satisfy fun c => c == 'x' || c == 'o' || c == 'b' with
  | 'x' => integerOf (numberOf 16 (← digits isHexDigit))
  | 'o' => integerOf (numberOf 8 (← digits fun c => '0' ≤ c && c ≤ '7'))
  | _ => integerOf (numberOf 2 (← digits fun c => c == '0' || c == '1'))

/-- A decimal integer. -/
def decimalInteger : Scanner Value := do
  let negative ← sign
  let value : Int := numberOf 10 (← decimalDigits)
  integerOf (if negative then -value else value)

/-! ### Floats -/

/-- Whether `significand * 10 ^ exponent`, with a significand of so many digits, rounds to a number
beyond the largest double. Exponents that decide the matter alone are not multiplied out. -/
def overflows (significand digitCount : Nat) (exponent : Int) : Bool :=
  if significand = 0 then false
  else if 400 < exponent then true
  else if exponent + digitCount < 300 then false
  else
    (Nat.pow 2 1024 - Nat.pow 2 970) * Nat.pow 10 (-exponent).toNat ≤
      significand * Nat.pow 10 exponent.toNat

/-- The exponent of a float. -/
def floatExponent : Scanner Int := do
  let _ ← satisfy fun c => c == 'e' || c == 'E'
  let negative ← sign
  let value : Int := numberOf 10 (← digits Char.isDigit)
  return if negative then -value else value

/-- A float that is written with digits: it has a fraction or an exponent. -/
def finiteFloat : Scanner Value := do
  let negative ← sign
  let whole ← decimalDigits
  let fraction ← maybe do char '.'; digits Char.isDigit
  let exponent ← maybe floatExponent
  if fraction.isNone && exponent.isNone then failure
  else
    let ds := whole ++ fraction.getD []
    let scale : Int := exponent.getD 0 - (fraction.getD []).length
    if !negative && overflows (numberOf 10 ds) ds.length scale then failure
    else return .float (String.ofList ds ++ "e" ++ toString scale)

/-- An infinity or no number. -/
def specialFloat : Scanner Value := do
  let _ ← sign
  (do chars ['i', 'n', 'f']; return .float "inf") <|> do chars ['n', 'a', 'n']; return .float "nan"

/-! ### Dates and times -/

/-- A number of so many digits within bounds. -/
def field (width low high : Nat) : Scanner (List Char) := do
  let ds ← exactly Char.isDigit width
  let value := numberOf 10 ds
  if low ≤ value ∧ value ≤ high then return ds else failure

/-- The number of days of a month. -/
def daysOf (year month : Nat) : Nat :=
  let leap := year % 4 = 0 ∧ (year % 100 ≠ 0 ∨ year % 400 = 0)
  if month = 2 then (if leap then 29 else 28)
  else if month = 4 ∨ month = 6 ∨ month = 9 ∨ month = 11 then 30
  else 31

/-- A date. -/
def date : Scanner (List Char) := do
  let year ← exactly Char.isDigit 4
  char '-'
  let month ← field 2 1 12
  char '-'
  let day ← field 2 1 (daysOf (numberOf 10 year) (numberOf 10 month))
  return year ++ '-' :: month ++ '-' :: day

/-- A time of day. Of a fraction, the first nine digits count, and zeros at the end do not. -/
def time : Scanner (List Char) := do
  let hour ← field 2 0 23
  char ':'
  let minute ← field 2 0 59
  char ':'
  let second ← field 2 0 60
  let fraction ← maybe do char '.'; takeWhile1 Char.isDigit
  let shown := (((fraction.getD []).take 9).reverse.dropWhile (· == '0')).reverse
  return hour ++ ':' :: minute ++ ':' :: second ++ if shown.isEmpty then [] else '.' :: shown

/-- The distance from universal time. -/
def offset : Scanner (List Char) :=
  (do let _ ← satisfy fun c => c == 'Z' || c == 'z'; return ['Z']) <|> do
    let mark ← satisfy fun c => c == '+' || c == '-'
    let hour ← field 2 0 23
    char ':'
    let minute ← field 2 0 59
    let isZero := numberOf 10 hour = 0 ∧ numberOf 10 minute = 0
    return (if isZero then '+' else mark) :: hour ++ ':' :: minute

/-- A date, a time of day, or both with or without a distance from universal time. -/
def datetime : Scanner Value := do
  let dated : Scanner (List Char) := do
    let day ← date
    let timed ← maybe do
      let _ ← satisfy fun c => c == 'T' || c == 't' || c == ' '
      let clock ← time
      let zone ← maybe offset
      return 'T' :: clock ++ zone.getD []
    return day ++ timed.getD []
  return .datetime (String.ofList (← dated <|> time))

end CodeCensus.Toml
