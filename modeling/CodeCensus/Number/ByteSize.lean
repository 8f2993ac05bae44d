import CodeCensus.Number.Rounding

/-!
# Sizes in bytes

A size is shown in the largest unit of which it holds at least one, up to gigabytes, each unit being
1024 of the one before. The numeral has at most two decimals and no zero or point at its end that
says nothing. Sizes beyond 53 binary digits are first rounded to that many.
-/

namespace CodeCensus.Number

/-- The units of size. -/
inductive SizeUnit where
  | byte
  | kilobyte
  | megabyte
  | gigabyte
  deriving DecidableEq, Repr

namespace SizeUnit

/-- How many bytes a unit is. -/
def bytes : SizeUnit → Nat
  | byte => 1
  | kilobyte => 1024
  | megabyte => 1024 * 1024
  | gigabyte => 1024 * 1024 * 1024

/-- The symbol of a unit. -/
def symbol : SizeUnit → String
  | byte => "B"
  | kilobyte => "KB"
  | megabyte => "MB"
  | gigabyte => "GB"

/-- The unit in which a size is shown. -/
def forSize (size : Nat) : SizeUnit :=
  if gigabyte.bytes ≤ size then gigabyte
  else if megabyte.bytes ≤ size then megabyte
  else if kilobyte.bytes ≤ size then kilobyte
  else byte

end SizeUnit

/-- The numeral of a number of hundredths, without trailing zeros after the point. -/
def hundredthsText (hundredths : Nat) : List Char :=
  let whole := Nat.toDigits 10 (hundredths / 100)
  let tenth := Nat.digitChar (hundredths / 10 % 10)
  let hundredth := Nat.digitChar (hundredths % 10)
  if hundredths % 100 = 0 then whole
  else if hundredths % 10 = 0 then whole ++ ['.', tenth]
  else whole ++ ['.', tenth, hundredth]

/-- The hundredths of a unit that are shown for a size. -/
def hundredthsOf (size : Nat) (unit : SizeUnit) : Nat :=
  roundDiv (100 * size) unit.bytes

/-- A size in bytes as it is shown. -/
def byteSize (size : Nat) : String :=
  let held := toPrecision size
  let unit := SizeUnit.forSize held
  String.ofList (hundredthsText (hundredthsOf held unit)) ++ " " ++ unit.symbol

end CodeCensus.Number
