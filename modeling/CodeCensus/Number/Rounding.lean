/-!
# Rounding

A quotient of natural numbers rounded to the nearest natural number, a half going to the even
neighbour, and a natural number rounded in the same way to 53 significant binary digits, which is
what a double-precision number can hold of it.
-/

namespace CodeCensus.Number

/-- The natural number nearest to `num / den`; a half goes to the even neighbour. -/
def roundDiv (num den : Nat) : Nat :=
  let quotient := num / den
  let twice := 2 * (num % den)
  if twice < den then quotient
  else if den < twice then quotient + 1
  else if quotient % 2 = 0 then quotient
  else quotient + 1

/-- The number of binary digits that a double-precision number keeps. -/
def precision : Nat := 53

/-- A natural number rounded to 53 significant binary digits. -/
def toPrecision (n : Nat) : Nat :=
  let scale := Nat.pow 2 (n.log2 + 1 - precision)
  roundDiv n scale * scale

end CodeCensus.Number
