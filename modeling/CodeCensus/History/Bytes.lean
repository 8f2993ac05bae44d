/-!
# Bytes in the files of a repository

Repositories keep their own records as bytes that need not be text. What all of them have in common is what
counts as a blank, and how a number is written.
-/

namespace CodeCensus.History

/-! ### Blanks -/

/-- Whether a byte is a blank. -/
def isSpace (byte : UInt8) : Bool :=
  byte == 0x20 || 0x09 ≤ byte && byte ≤ 0x0D

/-- Some bytes without blanks at the end. -/
def trimEnd (bytes : List UInt8) : List UInt8 :=
  (bytes.reverse.dropWhile isSpace).reverse

/-- Some bytes up to the first zero byte. -/
def untilZero (bytes : List UInt8) : List UInt8 :=
  bytes.takeWhile (· != 0)

/-! ### Letters and digits -/

/-- A letter in lower case; any other byte as it is. -/
def lower (byte : UInt8) : UInt8 :=
  if 0x41 ≤ byte && byte ≤ 0x5A then byte + 0x20 else byte

/-- The value of a digit, where letters follow the decimal digits. -/
def digitValue? (byte : UInt8) : Option Nat :=
  let byte := lower byte
  if 0x30 ≤ byte && byte ≤ 0x39 then some (byte.toNat - 0x30)
  else if 0x61 ≤ byte && byte ≤ 0x7A then some (byte.toNat - 0x61 + 10)
  else none

/-- Whether a byte is a digit in a base. -/
def isDigit (base : Nat) (byte : UInt8) : Bool :=
  (digitValue? byte).any (· < base)

/-! ### Numbers -/

/-- The number that some digits stand for. -/
def numberOf (base : Nat) (digits : List UInt8) : Nat :=
  digits.foldl (fun n digit => base * n + (digitValue? digit).getD 0) 0

/-- Whether some bytes begin with a minus sign, and what follows a sign. -/
def signAt (bytes : List UInt8) : Bool × List UInt8 :=
  if bytes.head? = some 0x2D then (true, bytes.tail)
  else if bytes.head? = some 0x2B then (false, bytes.tail)
  else (false, bytes)

/-- The number at the front of some bytes, behind blanks and a sign, and what follows it; nothing if there
is no digit or the number has more than 64 bits. -/
def integerAt? (base : List UInt8 → Nat × List UInt8) (bytes : List UInt8) :
    Option (Int × List UInt8) :=
  let (negative, unsigned) := signAt (bytes.dropWhile isSpace)
  let (base, unsigned) := base unsigned
  let digits := unsigned.takeWhile (isDigit base)
  let value : Int := if negative then -numberOf base digits else numberOf base digits
  if digits ≠ [] ∧ -Int.pow 2 63 ≤ value ∧ value < Int.pow 2 63 then
    some (value, unsigned.drop digits.length)
  else none

/-- The base that a number itself tells: a zero in front stands for base eight, and a zero and an `x` for
base sixteen. -/
def anyBase (bytes : List UInt8) : Nat × List UInt8 :=
  if bytes.head? ≠ some 0x30 then (10, bytes)
  else if bytes.tail.head?.map lower = some 0x78 ∧ 2 < bytes.length then (16, bytes.drop 2)
  else (8, bytes)

end CodeCensus.History
