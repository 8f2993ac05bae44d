import CodeCensus.Health.Deduction
import CodeCensus.Health.Grade

/-!
# The health score

Four categories of at most twenty-five points each add up to a score of at most a hundred, which
decides the grade. The score is explained by the first issues and the first pieces of advice, in the
order of the categories.
-/

namespace CodeCensus.Health

/-- The full marks of a category. -/
def categoryMax : Int := 25

/-- The most issues and the most pieces of advice that are reported. -/
def maxIssues : Nat := 10

@[inherit_doc maxIssues]
def maxAdvice : Nat := 5

/-- What the deductions leave of a category; never less than nothing. -/
def categoryScore (deductions : List Deduction) : Nat :=
  (wordPoints (categoryMax - (deductions.map Deduction.points).foldr (· + ·) 0)).toNat

/-- The points of each category. -/
structure Breakdown where
  codeQuality : Nat := 0
  maintenance : Nat := 0
  documentation : Nat := 0
  activity : Nat := 0
  deriving DecidableEq, Repr

/-- The sum over the categories. -/
def Breakdown.total (b : Breakdown) : Nat :=
  b.codeQuality + b.maintenance + b.documentation + b.activity

/-- A score with its explanation. -/
structure Score where
  grade : Grade
  score : Nat
  breakdown : Breakdown
  issues : List String
  recommendations : List String
  deriving DecidableEq, Repr

/-- All deductions, in the order in which they are reported. -/
def deductions (s : Signals) : List Deduction :=
  codeQuality s ++ maintenance s ++ documentation s ++ activity s

/-- The health score of a project. -/
def score (s : Signals) : Score :=
  let breakdown : Breakdown :=
    { codeQuality := categoryScore (codeQuality s)
      maintenance := categoryScore (maintenance s)
      documentation := categoryScore (documentation s)
      activity := categoryScore (activity s) }
  { grade := .ofScore breakdown.total
    score := breakdown.total
    breakdown := breakdown
    issues := ((deductions s).filterMap Deduction.issue).take maxIssues
    recommendations := ((deductions s).filterMap Deduction.advice).take maxAdvice }

end CodeCensus.Health
