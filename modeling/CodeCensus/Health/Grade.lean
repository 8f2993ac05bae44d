/-!
# Grades

The letter that sums up a score.
-/

namespace CodeCensus.Health

/-- The grades, best first. -/
inductive Grade where
  | a
  | b
  | c
  | d
  | f
  deriving DecidableEq, Repr

namespace Grade

/-- The letter of a grade. -/
def letter : Grade → String
  | a => "A"
  | b => "B"
  | c => "C"
  | d => "D"
  | f => "F"

/-- The grade of a score. -/
def ofScore (score : Nat) : Grade :=
  if 90 ≤ score then a
  else if 75 ≤ score then b
  else if 60 ≤ score then c
  else if 40 ≤ score then d
  else f

/-- The place of a grade in the order from best to worst. -/
def rank : Grade → Nat
  | a => 0
  | b => 1
  | c => 2
  | d => 3
  | f => 4

end Grade

end CodeCensus.Health
