/-!
# The shortest decimal of a double

A double-precision number stands for all the real numbers that round to it. It is written with the
fewest decimal digits for which some number in that interval can be written, and among the numbers
with that many digits with the nearest. All comparisons are made between natural numbers.

On the grid of the multiples of a power of ten only the two neighbours of the number itself have to be
tried: if any point of the grid lies in the interval, so does one of them.
-/

namespace CodeCensus.Number

/-- A positive number `significand * 2 ^ exponent`, with what is needed to find its neighbours. -/
structure Binary where
  significand : Nat
  exponent : Int
  /-- The number is a power of two, so that the next smaller one is only half as far away. -/
  isPower : Bool
  deriving DecidableEq, Repr

/-- The magnitude of a finite double other than zero. -/
def Binary.ofBits (bits : UInt64) : Binary :=
  let fraction : Nat := bits.toNat % Nat.pow 2 52
  let field : Nat := bits.toNat / Nat.pow 2 52 % Nat.pow 2 11
  if field = 0 then ⟨fraction, -1074, false⟩
  else ⟨fraction + Nat.pow 2 52, (field : Int) - 1075, fraction == 0 && 1 < field⟩

/-- A decimal number `digits * 10 ^ exponent`. -/
structure Decimal where
  digits : Nat
  exponent : Int
  deriving DecidableEq, Repr

namespace Binary

/-- The exponent of the first decimal digit of a number. -/
def magnitude (b : Binary) : Int :=
  let whole := b.significand * Nat.pow 2 b.exponent.toNat / Nat.pow 2 (-b.exponent).toNat
  if 0 < whole then ((Nat.toDigits 10 whole).length : Int) - 1
  else
    let reaches (j : Nat) : Bool := Nat.pow 2 (-b.exponent).toNat ≤ b.significand * Nat.pow 10 j
    let least := ((List.range 400).find? reaches).getD 0
    Int.negOfNat least

/-- The point of the grid of multiples of `10 ^ k` that stands for the number, if there is one. The
number and the ends of its interval are counted in quarters of its last binary digit. An end belongs
to the interval if the significand is even. -/
def onGrid? (b : Binary) (k : Int) : Option Decimal :=
  let quarter := b.exponent - 2
  let scale := Nat.pow 2 quarter.toNat * Nat.pow 10 (-k).toNat
  let step := Nat.pow 2 (-quarter).toNat * Nat.pow 10 k.toNat
  let value := 4 * b.significand * scale
  let low := (4 * b.significand - if b.isPower then 1 else 2) * scale
  let high := (4 * b.significand + 2) * scale
  let inside (d : Nat) : Bool :=
    if b.significand % 2 = 0 then low ≤ d * step && d * step ≤ high
    else low < d * step && d * step < high
  let below := value / step
  let above := below + 1
  let belowIsNearer : Bool :=
    let toBelow := value - below * step
    let toAbove := above * step - value
    toBelow < toAbove || (toBelow == toAbove && below % 2 == 0)
  match inside below, inside above with
  | true, true => some ⟨if belowIsNearer then below else above, k⟩
  | true, false => some ⟨below, k⟩
  | false, true => some ⟨above, k⟩
  | false, false => none

/-- The shortest decimal that stands for a number. Seventeen digits are always enough. -/
def shortest (b : Binary) : Decimal :=
  let first := b.magnitude
  let grid (n : Nat) : Option Decimal := b.onGrid? (first - n)
  ((List.range 18).findSome? grid).getD ⟨b.significand, b.exponent⟩

end Binary

/-- The digits of a decimal without zeros at the end, and the exponent of the first of them. -/
def Decimal.scientific (d : Decimal) : List Char × Int :=
  let digits := Nat.toDigits 10 d.digits
  (((digits.reverse.dropWhile (· == '0')).reverse), d.exponent + digits.length - 1)

end CodeCensus.Number
