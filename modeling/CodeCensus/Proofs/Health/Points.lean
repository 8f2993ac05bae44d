import CodeCensus.Health.Score
import Mathlib.Algebra.BigOperators.Group.List.Basic
import Mathlib.Algebra.Order.Ring.Int
import Mathlib.Tactic.NormNum
import Mathlib.Tactic.SplitIfs

/-!
# Points

What is left of a category is what its deductions do not take from the full marks.  Points are counted
in words of 32 bits, which makes no difference as long as there are not very many of them.
-/

namespace CodeCensus.Health

variable {deductions others : List Deduction} {condition : Prop} [Decidable condition]
  {deduction : Deduction}

/-! ### What deductions take -/

/-- The points that some deductions take off. -/
def taken (deductions : List Deduction) : Int :=
  (deductions.map Deduction.points).sum

@[simp] theorem taken_nil : taken [] = 0 := rfl

@[simp] theorem taken_cons :
    taken (deduction :: deductions) = deduction.points + taken deductions := by
  simp [taken]

@[simp] theorem taken_append : taken (deductions ++ others) = taken deductions + taken others := by
  simp [taken]

/-- A deduction under a condition takes something off where the condition holds. -/
@[simp] theorem taken_deductIf :
    taken (deductIf condition deduction) = if condition then deduction.points else 0 := by
  unfold deductIf
  split <;> simp

/-- What is taken off under a condition is taken off under a weaker one. -/
theorem ite_le_ite_of_imp {weaker : Prop} [Decidable weaker] (imp : condition → weaker) {points : Nat} :
    (if condition then points else 0) ≤ if weaker then points else 0 := by
  split_ifs with holds fails
  · exact le_rfl
  · exact absurd (imp holds) fails
  · exact Nat.zero_le points
  · exact le_rfl

/-! ### What they leave -/

/-- Points that fit into a machine word are what they are. -/
theorem wordPoints_eq {points : Int} (low : -2 ^ 31 ≤ points) (high : points < 2 ^ 31) :
    wordPoints points = points := by
  refine Int.bmod_eq_of_le ?_ ?_
  · exact low
  · exact high

/-- Of a category is left what is not taken off, and nothing where more is taken off than there was. -/
theorem categoryScore_eq_sub {points : Nat} (htaken : taken deductions = points)
    (few : points ≤ 2 ^ 31) : categoryScore deductions = 25 - points := by
  have hsum : (deductions.map Deduction.points).foldr (· + ·) 0 = taken deductions := rfl
  rw [categoryScore, hsum, htaken, categoryMax, wordPoints_eq (by omega) (by omega)]
  omega

end CodeCensus.Health
