import CodeCensus.Number.ByteSize
import CodeCensus.Proofs.Digits
import Mathlib.Algebra.Order.Field.Basic
import Mathlib.Data.Rat.Cast.Order
import Mathlib.Tactic.FieldSimp
import Mathlib.Tactic.IntervalCases
import Mathlib.Tactic.Linarith
import Mathlib.Tactic.NormNum
import Mathlib.Tactic.Ring

/-!
# What the text of a size tells

The text of a size is read back here: the characters in front of the blank are split at the point, and the
digits on both sides of it stand for a rational number (`Numeral.value`).  This number is the size in the
unit that is named, up to half a hundredth (`byteSize_accurate`).

The text is made from a number of hundredths.  The nearest such number is at most half of one away
(`roundDiv_near`), and of two numbers the larger one has no smaller nearest one, since otherwise both would
lie in the middle between the same two neighbours (`roundDiv_mono`).  That the zeros at the end are left out
changes the text but not what it stands for (`Numeral.value_ofHundredths`).
-/

namespace CodeCensus.Number

open Json (natOfDigits)

variable {num other den n : Nat}

/-! ### Rounding -/

/-- A quotient is rounded to a number that is at most a half away from it. -/
theorem roundDiv_near (num : Nat) (positive : 0 < den) :
    2 * (den * roundDiv num den) ≤ 2 * num + den ∧ 2 * num ≤ 2 * (den * roundDiv num den) + den := by
  have hdivision := Nat.div_add_mod num den
  have hremainder := Nat.mod_lt num positive
  have hnext : den * (num / den + 1) = den * (num / den) + den := by rw [Nat.mul_add, Nat.mul_one]
  simp only [roundDiv]
  split_ifs <;> omega

/-- Rounding keeps the order. -/
theorem roundDiv_mono (positive : 0 < den) (le : num ≤ other) : roundDiv num den ≤ roundDiv other den := by
  by_contra lt
  have hstep : den * (roundDiv other den + 1) ≤ den * roundDiv num den :=
    Nat.mul_le_mul_left den (by omega)
  rw [Nat.mul_add, Nat.mul_one] at hstep
  have hnum := (roundDiv_near num positive).1
  have hother := (roundDiv_near other positive).2
  obtain rfl : num = other := by omega
  exact lt le_rfl

theorem roundDiv_one (num : Nat) : roundDiv num 1 = num := by
  simp [roundDiv, Nat.mod_one]

/-- Small numbers are held exactly. -/
theorem toPrecision_of_lt (small : n < 2 ^ 53) : toPrecision n = n := by
  have hlog : n.log2 < precision := by
    by_cases zero : n = 0
    · rw [zero]
      decide
    · exact (Nat.log2_lt zero).2 small
  have hscale : n.log2 + 1 - precision = 0 := by omega
  have hone : Nat.pow 2 0 = 1 := rfl
  rw [toPrecision, hscale, hone, roundDiv_one, Nat.mul_one]

/-! ### Units -/

namespace SizeUnit

/-- The power of 1024 that a unit is. -/
def exponent : SizeUnit → Nat
  | byte => 0
  | kilobyte => 1
  | megabyte => 2
  | gigabyte => 3

/-- A unit is a power of 1024. -/
theorem bytes_eq_pow (unit : SizeUnit) : unit.bytes = 1024 ^ unit.exponent := by
  cases unit <;> rfl

theorem bytes_pos (unit : SizeUnit) : 0 < unit.bytes := by
  cases unit <;> decide

/-- Whether a unit is the largest one of which a size holds at least one. -/
structure IsLargestIn (unit : SizeUnit) (n : Nat) : Prop where
  held : 1024 ^ unit.exponent ≤ n
  largest : ∀ k ≤ 3, 1024 ^ k ≤ n → k ≤ unit.exponent

/-- A size holds its unit at least once. -/
theorem bytes_forSize_le (positive : 0 < n) : (forSize n).bytes ≤ n := by
  unfold forSize
  split_ifs with giga mega kilo
  · exact giga
  · exact mega
  · exact kilo
  · exact positive

/-- A unit that a size holds is not larger than the one in which it is shown. -/
theorem exponent_le_of_bytes_le {unit : SizeUnit} (held : unit.bytes ≤ n) :
    unit.exponent ≤ (forSize n).exponent := by
  unfold forSize
  split_ifs with giga mega kilo
  · cases unit <;> decide
  all_goals cases unit <;> first | decide | contradiction

/-- There is a unit for each power up to the third. -/
theorem exists_exponent_eq {k : Nat} (le : k ≤ 3) : ∃ unit : SizeUnit, unit.exponent = k := by
  interval_cases k
  exacts [⟨byte, rfl⟩, ⟨kilobyte, rfl⟩, ⟨megabyte, rfl⟩, ⟨gigabyte, rfl⟩]

/-- A size is shown in the largest unit that it holds. -/
theorem isLargestIn_forSize (positive : 0 < n) : (forSize n).IsLargestIn n where
  held := by
    rw [← bytes_eq_pow]
    exact bytes_forSize_le positive
  largest := by
    intro k le held
    obtain ⟨unit, rfl⟩ := exists_exponent_eq le
    rw [← bytes_eq_pow] at held
    exact exponent_le_of_bytes_le held

theorem exponent_le (unit : SizeUnit) : unit.exponent ≤ 3 := by
  cases unit <;> decide

theorem exponent_injective : Function.Injective exponent := by
  intro unit other same
  cases unit <;> cases other <;> first | rfl | cases same

/-- There is one largest unit. -/
theorem IsLargestIn.eq_forSize {unit : SizeUnit} (largest : unit.IsLargestIn n) : unit = forSize n := by
  have positive : 0 < n := (Nat.pow_pos (by decide)).trans_le largest.held
  have shown := isLargestIn_forSize positive
  exact exponent_injective (le_antisymm (shown.largest _ unit.exponent_le largest.held)
    (largest.largest _ (exponent_le _) shown.held))

end SizeUnit

/-! ### Numerals -/

/-- A decimal numeral: the digits in front of the point, and those behind it. -/
structure Numeral where
  whole : List Char
  decimals : List Char
  deriving DecidableEq

namespace Numeral

variable {numeral : Numeral}

/-- A numeral as it is written. Without decimals there is no point. -/
def text (numeral : Numeral) : List Char :=
  numeral.whole ++ if numeral.decimals = [] then [] else '.' :: numeral.decimals

/-- The numeral that is written in a text. -/
def ofText (text : List Char) : Numeral where
  whole := text.takeWhile (· != '.')
  decimals := (text.dropWhile (· != '.')).drop 1

/-- The number that a numeral stands for. -/
def value (numeral : Numeral) : ℚ :=
  natOfDigits numeral.whole + natOfDigits numeral.decimals / 10 ^ numeral.decimals.length

/-- Whether a numeral has at most two decimals and no zero that says nothing. -/
structure IsShort (numeral : Numeral) : Prop where
  /-- The digits in front of the point are those of a number. -/
  whole : ∃ k, numeral.whole = Nat.toDigits 10 k
  areDigits : ∀ c ∈ numeral.decimals, c.isDigit
  length_le : numeral.decimals.length ≤ 2
  stripped : numeral.decimals.getLast? ≠ some '0'

/-- In front of the point stand digits only. -/
theorem IsShort.isDigit_of_mem_whole (short : numeral.IsShort) {c : Char} (mem : c ∈ numeral.whole) :
    c.isDigit := by
  obtain ⟨k, hwhole⟩ := short.whole
  rw [hwhole] at mem
  exact isDigit_of_mem_toDigits mem

/-- A short numeral is found again in its text. -/
theorem ofText_text (short : numeral.IsShort) : ofText numeral.text = numeral := by
  have hwhole : ∀ c ∈ numeral.whole, c != '.' := fun c mem =>
    bne_iff_ne.2 (ne_of_isDigit (short.isDigit_of_mem_whole mem) rfl)
  unfold ofText text
  split_ifs with none
  · rw [List.append_nil, List.takeWhile_eq_self_iff.2 hwhole, List.dropWhile_eq_nil_iff.2 hwhole,
      List.drop_nil, ← none]
  · rw [List.takeWhile_append_of_pos hwhole, List.dropWhile_append_of_pos hwhole]
    simp

/-- A numeral is written in digits, and perhaps a point. -/
theorem ne_blank_of_mem_text (short : numeral.IsShort) {c : Char} (mem : c ∈ numeral.text) : c ≠ ' ' := by
  unfold text at mem
  rcases List.mem_append.1 mem with whole | rest
  · exact ne_of_isDigit (short.isDigit_of_mem_whole whole) rfl
  · split_ifs at rest with none
    · cases rest
    · rcases List.mem_cons.1 rest with rfl | decimal
      · decide
      · exact ne_of_isDigit (short.areDigits c decimal) rfl

/-- The numeral for a number of hundredths. -/
def ofHundredths (hundredths : Nat) : Numeral where
  whole := Nat.toDigits 10 (hundredths / 100)
  decimals :=
    if hundredths % 100 = 0 then []
    else if hundredths % 10 = 0 then [Nat.digitChar (hundredths / 10 % 10)]
    else [Nat.digitChar (hundredths / 10 % 10), Nat.digitChar (hundredths % 10)]

/-- A numeral for hundredths is written as the program writes them. -/
theorem text_ofHundredths (hundredths : Nat) : (ofHundredths hundredths).text = hundredthsText hundredths := by
  unfold text ofHundredths hundredthsText
  split_ifs <;> simp_all

theorem isDigit_digitChar : ∀ d < 10, (Nat.digitChar d).isDigit := by decide

/-- A digit stands for its value. -/
theorem natOfDigits_digitChar : ∀ d < 10, natOfDigits [Nat.digitChar d] = d := by decide

/-- Two digits stand for the tens and the ones. -/
theorem natOfDigits_digitChar_pair :
    ∀ d < 10, ∀ e < 10, natOfDigits [Nat.digitChar d, Nat.digitChar e] = 10 * d + e := by decide

/-- Hundredths are written with two decimals at most, and no zero at their end. -/
theorem isShort_ofHundredths (hundredths : Nat) : (ofHundredths hundredths).IsShort := by
  have htenth := isDigit_digitChar (hundredths / 10 % 10) (Nat.mod_lt _ (by decide))
  have hlast := isDigit_digitChar (hundredths % 10) (Nat.mod_lt _ (by decide))
  unfold ofHundredths
  split_ifs with whole tenths
  · exact ⟨⟨_, rfl⟩, by simp, by simp, by simp⟩
  · have hne : hundredths / 10 % 10 ≠ 0 := by omega
    exact ⟨⟨_, rfl⟩, by simpa using htenth, by simp, by simpa using hne⟩
  · exact ⟨⟨_, rfl⟩, by simp [htenth, hlast], by simp, by simpa using tenths⟩

/-- The zeros that are left out do not count. -/
theorem value_ofHundredths (hundredths : Nat) : (ofHundredths hundredths).value = hundredths / 100 := by
  have hsplit : hundredths = 100 * (hundredths / 100) + (10 * (hundredths / 10 % 10) + hundredths % 10) := by
    omega
  have htenth : hundredths / 10 % 10 < 10 := Nat.mod_lt _ (by decide)
  have hlast : hundredths % 10 < 10 := Nat.mod_lt _ (by decide)
  have hvalue : (hundredths : ℚ) =
      100 * (hundredths / 100 : Nat) + (10 * (hundredths / 10 % 10 : Nat) + (hundredths % 10 : Nat)) := by
    exact_mod_cast hsplit
  rw [hvalue]
  unfold value ofHundredths
  split_ifs with whole tenths
  · have hzero : hundredths / 10 % 10 = 0 ∧ hundredths % 10 = 0 := by omega
    have hnil : natOfDigits [] = 0 := rfl
    simp [natOfDigits_toDigits, hzero, hnil]
  · simp only [natOfDigits_toDigits, natOfDigits_digitChar _ htenth, tenths, List.length_singleton]
    push_cast
    ring
  · simp only [natOfDigits_toDigits, natOfDigits_digitChar_pair _ htenth _ hlast, List.length_cons,
      List.length_nil]
    push_cast
    ring

end Numeral

/-! ### The text of a size -/

/-- The numeral in the text of a size: what stands in front of the blank. -/
def numeralOf (size : String) : Numeral :=
  .ofText (size.toList.takeWhile (· != ' '))

/-- A size that a float represents is shown by its rounded hundredths of a unit. -/
theorem byteSize_of_lt (small : n < 2 ^ 53) : byteSize n =
    String.ofList (Numeral.ofHundredths (hundredthsOf n (.forSize n))).text ++ " " ++
      (SizeUnit.forSize n).symbol := by
  simp only [byteSize, toPrecision_of_lt small, Numeral.text_ofHundredths]

/-- The numeral is read back from the text of a size. -/
theorem numeralOf_byteSize (small : n < 2 ^ 53) :
    numeralOf (byteSize n) = .ofHundredths (hundredthsOf n (.forSize n)) := by
  have hshort := Numeral.isShort_ofHundredths (hundredthsOf n (.forSize n))
  have hblank : ∀ c ∈ (Numeral.ofHundredths (hundredthsOf n (.forSize n))).text, c != ' ' :=
    fun c mem => bne_iff_ne.2 (Numeral.ne_blank_of_mem_text hshort mem)
  have htext : (byteSize n).toList = (Numeral.ofHundredths (hundredthsOf n (.forSize n))).text ++
      ' ' :: (SizeUnit.forSize n).symbol.toList := by
    rw [byteSize_of_lt small]
    simp
  rw [numeralOf, htext, List.takeWhile_append_of_pos hblank, List.takeWhile_cons_of_neg (by decide),
    List.append_nil, Numeral.ofText_text hshort]

/-- The hundredths that are shown are at most a half away from the size. -/
theorem abs_hundredthsOf_sub_le (n : Nat) (unit : SizeUnit) :
    |(hundredthsOf n unit : ℚ) / 100 - n / unit.bytes| ≤ 1 / 200 := by
  obtain ⟨hle, hge⟩ := roundDiv_near (100 * n) unit.bytes_pos
  have hpositive : (0 : ℚ) < unit.bytes := by exact_mod_cast unit.bytes_pos
  have hupper : 2 * (unit.bytes * (hundredthsOf n unit : ℚ)) ≤ 2 * (100 * n) + unit.bytes := by
    exact_mod_cast hle
  have hlower : 2 * (100 * (n : ℚ)) ≤ 2 * (unit.bytes * hundredthsOf n unit) + unit.bytes := by
    exact_mod_cast hge
  have hdifference : (hundredthsOf n unit : ℚ) / 100 - n / unit.bytes =
      (2 * (unit.bytes * hundredthsOf n unit) - 2 * (100 * n)) / (200 * unit.bytes) := by
    field_simp
    ring
  rw [hdifference, abs_le]
  constructor
  · rw [le_div_iff₀ (by linarith)]
    linarith
  · rw [div_le_iff₀ (by linarith)]
    linarith

/-- **What the text of a size tells.**  The text is a numeral, a blank and the largest unit of which the
size holds at least one.  The numeral has at most two decimals, none of them a zero at the end, and stands
for the size in this unit up to half a hundredth.  In the same unit a larger size has no smaller numeral. -/
theorem byteSize_accurate (positive : 0 < n) (small : n < 2 ^ 53) :
    ∃ unit : SizeUnit, unit.IsLargestIn n ∧
      byteSize n = String.ofList (numeralOf (byteSize n)).text ++ " " ++ unit.symbol ∧
      (numeralOf (byteSize n)).IsShort ∧
      |(numeralOf (byteSize n)).value - n / 1024 ^ unit.exponent| ≤ 1 / 200 ∧
      ∀ m, n ≤ m → m < 2 ^ 53 → unit.IsLargestIn m →
        (numeralOf (byteSize n)).value ≤ (numeralOf (byteSize m)).value := by
  refine ⟨.forSize n, SizeUnit.isLargestIn_forSize positive, ?_, ?_, ?_, ?_⟩
  · rw [numeralOf_byteSize small, byteSize_of_lt small]
  · rw [numeralOf_byteSize small]
    exact Numeral.isShort_ofHundredths _
  · rw [numeralOf_byteSize small, Numeral.value_ofHundredths]
    have hpow : (1024 : ℚ) ^ (SizeUnit.forSize n).exponent = (SizeUnit.forSize n).bytes := by
      exact_mod_cast (SizeUnit.bytes_eq_pow _).symm
    rw [hpow]
    exact abs_hundredthsOf_sub_le n _
  · intro m le small' largest
    have hmono : hundredthsOf n (.forSize n) ≤ hundredthsOf m (.forSize n) :=
      roundDiv_mono (SizeUnit.bytes_pos _) (Nat.mul_le_mul_left 100 le)
    rw [numeralOf_byteSize small, numeralOf_byteSize small', ← largest.eq_forSize,
      Numeral.value_ofHundredths, Numeral.value_ofHundredths]
    exact div_le_div_of_nonneg_right (by exact_mod_cast hmono) (by norm_num)

/-- A size just below a megabyte is shown as 1024 kilobytes, the nearest number of hundredths, and a smaller
one of the same unit does not come out larger. -/
theorem byteSize_accurate_edge :
    byteSize 1048575 = "1024 KB" ∧ byteSize 1044490 = "1020.01 KB" ∧
      (numeralOf (byteSize 1044490)).value ≤ (numeralOf (byteSize 1048575)).value := by
  obtain ⟨unit, largest, -, -, -, grows⟩ := byteSize_accurate (n := 1044490) (by decide) (by decide)
  obtain rfl : unit = .kilobyte := largest.eq_forSize
  have larger := SizeUnit.isLargestIn_forSize (n := 1048575) (by decide)
  exact ⟨by decide, by decide, grows 1048575 (by decide) (by decide) larger⟩

end CodeCensus.Number
