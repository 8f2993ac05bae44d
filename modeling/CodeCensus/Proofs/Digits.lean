import CodeCensus.Calendar.Date
import CodeCensus.Json.Value
import CodeCensus.Proofs.Json.Grammar
import Mathlib.Data.Char
import Mathlib.Data.List.Induction
import Mathlib.Data.List.Lex
import Mathlib.Data.List.TakeDrop
import Mathlib.Data.List.TakeWhile
import Mathlib.Data.Nat.Digits.Defs

/-!
# Decimal digits

The number that the decimal digits of a number stand for is this number, also with zeros in front of
them.  The digits without such zeros do not begin with one, unless the number is zero, and they are the
only ones of this kind that stand for the number (`toDigits_natOfDigits`).  In a text they end where
another character comes.

Equally many digits are in the order of the numbers that they stand for, so that numbers which are filled
up to one width are written in their order (`padded_append_lt`).
-/

namespace CodeCensus

open Json (natOfDigits IsWhole)
open Json.Numeral (spanDigits)
open Calendar (padded)

variable {n width : Nat}

/-! ### Reading digits -/

theorem natOfDigits_eq_ofDigitChars (digits : List Char) :
    natOfDigits digits = Nat.ofDigitChars 10 digits 0 :=
  Nat.ofDigitChars_eq_foldl.symm

/-- The digits of a number are read back as the number. -/
@[simp] theorem natOfDigits_toDigits (n : Nat) : natOfDigits (Nat.toDigits 10 n) = n := by
  rw [natOfDigits_eq_ofDigitChars, Nat.ofDigitChars_ten_toDigits]

/-- Zeros in front of digits make no difference. -/
theorem natOfDigits_replicate_append (zeros : Nat) (digits : List Char) :
    natOfDigits (List.replicate zeros '0' ++ digits) = natOfDigits digits := by
  induction zeros with
  | zero => simp
  | succ zeros ih =>
    rw [List.replicate_succ, List.cons_append, ← ih]
    rfl

/-- A digit is none of the characters that are not digits, such as a separator. -/
theorem ne_of_isDigit {c d : Char} (isDigit : c.isDigit) (notDigit : d.isDigit = false) : c ≠ d := by
  rintro rfl
  exact absurd isDigit (by simp [notDigit])

/-- The digits lie next to each other among the characters. -/
theorem toNat_of_isDigit {c : Char} (isDigit : c.isDigit) : '0'.toNat ≤ c.toNat ∧ c.toNat ≤ '9'.toNat := by
  simp only [Char.isDigit, Bool.and_eq_true, decide_eq_true_eq] at isDigit
  exact isDigit

/-- Digits end where no digit comes. -/
theorem spanDigits_append {digits rest : List Char} (areDigits : ∀ c ∈ digits, c.isDigit)
    (stop : ∀ c ∈ rest.head?, c.isDigit = false) : spanDigits (digits ++ rest) = (digits, rest) := by
  have htake : rest.takeWhile Char.isDigit = [] := by
    cases rest with
    | nil => rfl
    | cons c rest => exact List.takeWhile_cons_of_neg (by simpa using stop c rfl)
  have hdrop : rest.dropWhile Char.isDigit = rest := by
    cases rest with
    | nil => rfl
    | cons c rest => exact List.dropWhile_cons_of_neg (by simpa using stop c rfl)
  rw [spanDigits, List.span_eq_takeWhile_dropWhile, List.takeWhile_append_of_pos areDigits,
    List.dropWhile_append_of_pos areDigits, htake, hdrop, List.append_nil]

/-! ### Digits without zeros in front -/

theorem isDigit_of_mem_toDigits {c : Char} (mem : c ∈ Nat.toDigits 10 n) : c.isDigit :=
  Nat.isDigit_of_mem_toDigits (by decide) (by decide) mem

/-- The digits of a number other than zero do not begin with a zero. -/
theorem head?_toDigits_ne_zero (positive : n ≠ 0) : (Nat.toDigits 10 n).head? ≠ some '0' := by
  induction n using Nat.strongRecOn with
  | ind n ih =>
    rw [Nat.toDigits_eq_if (by decide)]
    split
    · rw [List.head?_singleton, ne_eq, Option.some_inj, Nat.digitChar_eq_zero]
      exact positive
    · next large =>
      have hdiv : (Nat.toDigits 10 (n / 10)).head? ≠ some '0' := ih (n / 10) (by omega) (by omega)
      obtain ⟨first, rest, hdigits⟩ := List.exists_cons_of_ne_nil (Nat.toDigits_ne_nil (b := 10))
      rwa [hdigits] at hdiv ⊢

/-- The digits of a number are written as numerals are: at least one, and no zero in front of others. -/
theorem isWhole_toDigits (n : Nat) : IsWhole (Nat.toDigits 10 n) := by
  refine ⟨⟨Nat.toDigits_ne_nil, fun c mem => isDigit_of_mem_toDigits mem⟩, fun zero => ?_⟩
  by_cases hn : n = 0
  · rw [hn]
    rfl
  · exact absurd zero (head?_toDigits_ne_zero hn)

/-- One more digit at the end makes the number ten times as large, and adds its own value. -/
theorem natOfDigits_concat (digits : List Char) (c : Char) :
    natOfDigits (digits ++ [c]) = 10 * natOfDigits digits + (c.toNat - '0'.toNat) := by
  rw [natOfDigits, List.foldl_concat]
  rfl

/-- A digit stands for a number below ten, which is written with this digit. -/
theorem toDigits_of_isDigit {c : Char} (isDigit : c.isDigit) :
    c.toNat - '0'.toNat < 10 ∧ Nat.toDigits 10 (c.toNat - '0'.toNat) = [c] := by
  have hdigitChar : ∀ d < 10, Nat.digitChar d = Char.ofNat ('0'.toNat + d) := by decide
  obtain ⟨hlow, hhigh⟩ := toNat_of_isDigit isDigit
  have hlt : c.toNat - '0'.toNat < 10 := Nat.lt_succ_of_le (Nat.sub_le_sub_right hhigh _)
  refine ⟨hlt, ?_⟩
  rw [Nat.toDigits_of_lt_base hlt, hdigitChar _ hlt, Nat.add_sub_cancel' hlow, Char.ofNat_toNat]

/-- Digits without zeros in front are those of the number that they stand for. -/
theorem toDigits_natOfDigits {digits : List Char} (whole : IsWhole digits) :
    Nat.toDigits 10 (natOfDigits digits) = digits := by
  induction digits using List.reverseRecOn with
  | nil => exact absurd rfl whole.1.1
  | append_singleton front c ih =>
    obtain ⟨⟨-, areDigits⟩, bare⟩ := whole
    obtain ⟨hfront, hlast⟩ := List.forall_mem_append.1 areDigits
    obtain ⟨hlt, hdigit⟩ := toDigits_of_isDigit (hlast c (List.mem_singleton_self c))
    rw [natOfDigits_concat]
    by_cases alone : front = []
    · rw [alone]
      exact (congrArg _ (Nat.zero_add _)).trans hdigit
    · have hbare : front.head? ≠ some '0' := by
        intro zero
        have hhead : (front ++ [c]).head? = some '0' := by
          rw [List.head?_append_of_ne_nil _ alone, zero]
        have hlength : front.length + 1 = 1 := by
          simpa using congrArg List.length (bare hhead)
        exact alone (List.length_eq_zero_iff.1 (Nat.succ.inj hlength))
      have hwhole := ih ⟨⟨alone, hfront⟩, fun zero => absurd zero hbare⟩
      -- With a number in front, the last digit is a remainder.
      have hpositive : 0 < natOfDigits front := by
        refine Nat.pos_of_ne_zero fun zero => hbare ?_
        rw [← hwhole, zero]
        rfl
      rw [← Nat.toDigits_append_toDigits (by decide) hpositive hlt, hwhole, hdigit]

/-! ### Digits with zeros in front -/

/-- Zeros in front do not change what is read. -/
@[simp] theorem natOfDigits_padded (width n : Nat) : natOfDigits (padded width n) = n := by
  rw [padded, natOfDigits_replicate_append, natOfDigits_toDigits]

/-- Numbers that are written to one width are told apart. -/
theorem padded_injective (width : Nat) : Function.Injective (padded width) :=
  Function.LeftInverse.injective (natOfDigits_padded width)

theorem isDigit_of_mem_padded {c : Char} (mem : c ∈ padded width n) : c.isDigit := by
  rcases List.mem_append.1 mem with zero | digit
  · rw [List.eq_of_mem_replicate zero]
    rfl
  · exact isDigit_of_mem_toDigits digit

/-- A number that has at most as many digits as there is room for fills the room. -/
theorem length_padded (positive : 0 < width) (fits : n < 10 ^ width) :
    (padded width n).length = width := by
  have hlength : (Nat.toDigits 10 n).length ≤ width := Nat.toDigits_length 10 n width positive fits
  simp only [padded, List.length_append, List.length_replicate]
  omega

/-! ### The order of digits -/

theorem natOfDigits_cons (c : Char) (digits : List Char) :
    natOfDigits (c :: digits) = 10 ^ digits.length * (c.toNat - '0'.toNat) + natOfDigits digits := by
  simp only [natOfDigits_eq_ofDigitChars, Nat.ofDigitChars_cons, Nat.mul_zero, Nat.zero_add]
  exact Nat.ofDigitChars_eq_ofDigitChars_zero

/-- So many digits cannot stand for more than the power of ten of their number. -/
theorem natOfDigits_lt {digits : List Char} (areDigits : ∀ c ∈ digits, c.isDigit) :
    natOfDigits digits < 10 ^ digits.length := by
  induction digits with
  | nil => exact Nat.one_pos
  | cons c digits ih =>
    obtain ⟨hc, hdigits⟩ := List.forall_mem_cons.1 areDigits
    have hle : c.toNat - '0'.toNat ≤ 9 := by
      have hnine : '9'.toNat = '0'.toNat + 9 := rfl
      have hbounds := toNat_of_isDigit hc
      omega
    have hrest := ih hdigits
    rw [natOfDigits_cons, List.length_cons, Nat.pow_succ]
    calc 10 ^ digits.length * (c.toNat - '0'.toNat) + natOfDigits digits
        < 10 ^ digits.length * (c.toNat - '0'.toNat) + 10 ^ digits.length := Nat.add_lt_add_left hrest _
      _ = 10 ^ digits.length * (c.toNat - '0'.toNat + 1) := rfl
      _ ≤ 10 ^ digits.length * 10 := Nat.mul_le_mul_left _ (Nat.succ_le_succ hle)

/-- Equally many digits are in the order of the numbers that they stand for, whatever follows them. -/
theorem append_lt_of_natOfDigits_lt {digits others : List Char} (areDigits : ∀ c ∈ digits, c.isDigit)
    (areDigits' : ∀ c ∈ others, c.isDigit) (same : digits.length = others.length)
    (lt : natOfDigits digits < natOfDigits others) (rest rest' : List Char) :
    digits ++ rest < others ++ rest' := by
  induction digits generalizing others with
  | nil =>
    rw [List.length_eq_zero_iff.1 same.symm] at lt
    exact absurd lt (lt_irrefl _)
  | cons c digits ih =>
    cases others with
    | nil => cases same
    | cons d others =>
      obtain ⟨hc, hdigits⟩ := List.forall_mem_cons.1 areDigits
      obtain ⟨hd, hothers⟩ := List.forall_mem_cons.1 areDigits'
      have hlength : digits.length = others.length := Nat.succ.inj same
      rw [natOfDigits_cons, natOfDigits_cons, hlength] at lt
      rw [List.cons_append, List.cons_append, List.cons_lt_cons_iff]
      rcases lt_trichotomy c d with first | rfl | later
      · exact Or.inl first
      · exact Or.inr ⟨rfl, ih hdigits hothers hlength (by omega)⟩
      · -- A larger first digit outweighs all digits that follow it.
        have hlater : d.toNat < c.toNat := later
        have hzero := (toNat_of_isDigit hd).1
        have hstep : 10 ^ others.length * (d.toNat - '0'.toNat + 1) ≤
            10 ^ others.length * (c.toNat - '0'.toNat) := Nat.mul_le_mul_left _ (by omega)
        have hrest := natOfDigits_lt hothers
        rw [Nat.mul_add, Nat.mul_one] at hstep
        omega

/-- Numbers that are filled up to one width are written in their order. -/
theorem padded_append_lt {m : Nat} (positive : 0 < width) (lt : m < n) (fits : n < 10 ^ width)
    (rest rest' : List Char) : padded width m ++ rest < padded width n ++ rest' := by
  refine append_lt_of_natOfDigits_lt (fun _ mem => isDigit_of_mem_padded mem)
    (fun _ mem => isDigit_of_mem_padded mem) ?_ ?_ rest rest'
  · rw [length_padded positive (lt.trans fits), length_padded positive fits]
  · rwa [natOfDigits_padded, natOfDigits_padded]

end CodeCensus
