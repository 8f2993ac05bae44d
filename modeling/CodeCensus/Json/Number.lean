import CodeCensus.Json.Value
import CodeCensus.Number.Shortest

/-!
# JSON numbers

What a numeral stands for when its value is kept: an integer if it is written as one and fits into 64
bits, otherwise a double. The double is found in a simple way that is sometimes off by one in its last
place: as many digits as fit into 64 bits are read as an integer, which is then multiplied with a power
of ten or divided by it.
-/

namespace CodeCensus.Json

/-- The number that a numeral stands for. -/
inductive Number where
  | integer (value : Int)
  | double (value : Float)

namespace Numeral

/-! ### Significand and exponent -/

/-- Take further digits into a significand as long as it fits into 64 bits. The result is the
significand, and the digits that are left. -/
def absorb (significand : Nat) : List Char → Nat × List Char
  | [] => (significand, [])
  | d :: ds =>
    let longer := 10 * significand + (d.toNat - '0'.toNat)
    if longer < Nat.pow 2 64 then absorb longer ds else (significand, d :: ds)

/-- The significand of a numeral, and the exponent of ten that its digits alone give it. Digits left
over from the whole part count as zeros, digits left over from the fraction count for nothing. -/
def significand (n : Numeral) : Nat × Int :=
  let (whole, left) := absorb 0 n.whole
  let (all, unread) := absorb whole n.fraction
  (all, (left.length : Int) - (n.fraction.length - unread.length : Nat))

/-- The largest exponent that is read. -/
def maxExponent : Nat := Nat.pow 2 31 - 1

/-! ### Scaling -/

/-- A power of ten as a double. -/
def powerOfTen (n : Nat) : Float :=
  Float.ofScientific 1 false n

/-- The largest power of ten that is a double. -/
def maxPower : Nat := 308

/-- Divide by a power of ten, step by step where it is too large for a double. -/
def scaleDown (value : Float) (exponent : Nat) : Float :=
  if exponent ≤ maxPower then value / powerOfTen exponent
  else if value == 0 then value
  else scaleDown (value / powerOfTen maxPower) (exponent - maxPower)
termination_by exponent
decreasing_by simp_all [maxPower]; omega

/-- Multiply a significand with a power of ten, if the result is a double. -/
def scale? (significand : Nat) (exponent : Int) : Option Float :=
  let value := significand.toUInt64.toFloat
  match exponent with
  | .negSucc n => some (scaleDown value (n + 1))
  | .ofNat n =>
    if n ≤ maxPower then
      let scaled := value * powerOfTen n
      if scaled.isInf then none else some scaled
    else if value == 0 then some value
    else none

/-- The magnitude of a numeral as a double, if it is not too large. -/
def magnitude? (n : Numeral) : Option Float :=
  let (significand, exponent) := n.significand
  match n.exponent with
  | none => scale? significand exponent
  | some (negative, digits) =>
    let further := natOfDigits digits
    if further ≤ maxExponent then
      scale? significand (if negative then exponent - further else exponent + further)
    else if significand = 0 ∨ negative then some 0
    else none

/-- The number that a numeral stands for, if it is not too large. -/
def value? (n : Numeral) : Option Number :=
  let whole := natOfDigits n.whole
  if n.fraction = [] ∧ n.exponent = none ∧ !n.negative ∧ whole < Nat.pow 2 64 then
    some (.integer whole)
  else if n.fraction = [] ∧ n.exponent = none ∧ n.negative ∧ 0 < whole ∧ whole ≤ Nat.pow 2 63 then
    some (.integer (-whole))
  else n.magnitude?.map fun m => .double (if n.negative then -m else m)

end Numeral

/-! ### Writing numbers -/

/-- A double in as few digits as possible: with a point if the exponent of its first digit lies
between -5 and 15, and with an exponent otherwise. -/
def doubleText (value : Float) : List Char :=
  let bits := value.toBits
  let sign := if Nat.pow 2 63 ≤ bits.toNat then ['-'] else []
  if value == 0 then sign ++ ['0', '.', '0']
  else
    let (digits, exponent) := (CodeCensus.Number.Binary.ofBits bits).shortest.scientific
    let behind := exponent.toNat + 1
    sign ++
      if exponent < -5 ∨ 15 < exponent then
        let fraction := digits.drop 1
        digits.take 1 ++ (if fraction.isEmpty then [] else '.' :: fraction) ++
          'e' :: (if exponent < 0 then '-' else '+') :: Nat.toDigits 10 exponent.natAbs
      else if exponent < 0 then
        '0' :: '.' :: List.replicate (exponent.natAbs - 1) '0' ++ digits
      else if digits.length ≤ behind then
        digits ++ List.replicate (behind - digits.length) '0' ++ ['.', '0']
      else digits.take behind ++ '.' :: digits.drop behind

/-- The text of a number. -/
def Number.text : Number → List Char
  | .integer value =>
    (if value < 0 then ['-'] else []) ++ Nat.toDigits 10 value.natAbs
  | .double value => doubleText value

end CodeCensus.Json
