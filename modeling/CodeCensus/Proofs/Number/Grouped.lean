import CodeCensus.Number.Grouped
import CodeCensus.Proofs.Digits
import Mathlib.Data.List.Basic

/-!
# What the text of a grouped number tells

The groups of a number are counted from the right, and `commas` puts the commas in this direction.  The text
is read from the left, where a comma stands behind each digit that is followed by three, six, ... other digits
(`separated`).  Both are the same since a further digit in front of others gets a comma behind it exactly in
this case (`commas_concat`).

Without its commas the text is the digits again (`withoutCommas_separated`), and it falls at its commas into
groups of three, where only the first group may be shorter (`fallsIntoGroups_separated`): a further digit
makes the first group longer or, where that is full, is a group of its own.

How long the first group is depends on nothing but the number of digits.  So there is one such text for given
digits (`FallsIntoGroups.unique`), and one for a number, which has one numeral without zeros in front.
-/

namespace CodeCensus.Number

open Json (natOfDigits IsWhole)

variable {n : Nat} {c : Char} {digits first first' : List Char} {others others' : List (List Char)}

/-! ### Commas from the left -/

/-- Put a comma behind each digit that is followed by three, six, ... other digits. -/
def separated : List Char → List Char
  | [] => []
  | c :: rest =>
    if 0 < rest.length ∧ 3 ∣ rest.length then c :: ',' :: separated rest else c :: separated rest

/-- What a further digit in front of others adds.  The digits come with the last one first. -/
theorem commas_concat (c : Char) : ∀ digits : List Char, commas (digits ++ [c]) =
    commas digits ++ if 0 < digits.length ∧ 3 ∣ digits.length then [',', c] else [c]
  | [] | [_] | [_, _] | [_, _, _] => by simp [commas]
  | x :: y :: z :: d :: rest => by
    have hrest := commas_concat c (d :: rest)
    have hthree : 3 ∣ (x :: y :: z :: d :: rest).length ↔ 3 ∣ (d :: rest).length :=
      Nat.dvd_add_left (dvd_refl 3)
    simp only [List.cons_append, commas] at hrest ⊢
    rw [hrest]
    simp only [List.length_pos_of_ne_nil, ne_eq, reduceCtorEq, not_false_eq_true, true_and, hthree]

/-- Commas that are put in from the right stand where they are put in from the left. -/
theorem reverse_commas_reverse (digits : List Char) :
    (commas digits.reverse).reverse = separated digits := by
  induction digits with
  | nil => rfl
  | cons c rest ih =>
    rw [List.reverse_cons, commas_concat, List.reverse_append, ih, separated, List.length_reverse]
    split_ifs <;> rfl

theorem toList_grouped (n : Nat) : (grouped n).toList = separated (Nat.toDigits 10 n) := by
  rw [grouped, groupedDigits, reverse_commas_reverse, String.toList_ofList]

/-! ### The text without its commas -/

/-- What is left of a text without its commas. -/
def withoutCommas (text : List Char) : List Char :=
  text.filter (· != ',')

theorem withoutCommas_comma_cons (text : List Char) : withoutCommas (',' :: text) = withoutCommas text :=
  List.filter_cons_of_neg (by decide)

/-- Anything but a comma stays. -/
theorem withoutCommas_cons_of_ne (other : c ≠ ',') (text : List Char) :
    withoutCommas (c :: text) = c :: withoutCommas text :=
  List.filter_cons_of_pos (bne_iff_ne.2 other)

/-- Taking the commas out again leaves the digits. -/
theorem withoutCommas_separated (noComma : ',' ∉ digits) : withoutCommas (separated digits) = digits := by
  induction digits with
  | nil => rfl
  | cons c rest ih =>
    obtain ⟨hc, hrest⟩ := List.ne_and_not_mem_of_not_mem_cons noComma
    rw [separated]
    split_ifs
    · rw [withoutCommas_cons_of_ne hc.symm, withoutCommas_comma_cons, ih hrest]
    · rw [withoutCommas_cons_of_ne hc.symm, ih hrest]

/-- A text that is cut at its commas has everything but them. -/
theorem flatten_splitOn_comma (text : List Char) : (text.splitOn ',').flatten = withoutCommas text := by
  induction text with
  | nil => rfl
  | cons c rest ih =>
    obtain ⟨first, others, hsplit⟩ := List.exists_cons_of_ne_nil (List.splitOn_ne_nil ',' rest)
    rw [hsplit] at ih
    rw [List.splitOn_cons_eq_if_modifyHead, hsplit]
    split_ifs with comma
    · rw [beq_iff_eq.1 comma, withoutCommas_comma_cons, ← ih, List.flatten_cons, List.nil_append]
    · rw [withoutCommas_cons_of_ne (by simpa using comma), ← ih]
      rfl

/-! ### Groups -/

/-- Whether digits are in groups of three, where the first group may be shorter. -/
structure AreGroups (first : List Char) (others : List (List Char)) : Prop where
  areDigits : ∀ group ∈ first :: others, ∀ c ∈ group, c.isDigit
  positive : 0 < first.length
  length_le : first.length ≤ 3
  length_eq : ∀ group ∈ others, group.length = 3

namespace AreGroups

theorem singleton (isDigit : c.isDigit) : AreGroups [c] [] where
  areDigits := by simpa using isDigit
  positive := Nat.one_pos
  length_le := by simp
  length_eq := by simp

/-- In front of a full group a digit is a group of its own. -/
theorem single_cons (isDigit : c.isDigit) (groups : AreGroups first others) (full : first.length = 3) :
    AreGroups [c] (first :: others) where
  areDigits := List.forall_mem_cons.2 ⟨by simpa using isDigit, groups.areDigits⟩
  positive := Nat.one_pos
  length_le := by simp
  length_eq := List.forall_mem_cons.2 ⟨full, groups.length_eq⟩

/-- A digit makes a group longer that is not full. -/
theorem cons (isDigit : c.isDigit) (groups : AreGroups first others) (short : first.length ≠ 3) :
    AreGroups (c :: first) others where
  areDigits := by
    obtain ⟨hfirst, hothers⟩ := List.forall_mem_cons.1 groups.areDigits
    exact List.forall_mem_cons.2 ⟨List.forall_mem_cons.2 ⟨isDigit, hfirst⟩, hothers⟩
  positive := Nat.succ_pos _
  length_le := Nat.lt_of_le_of_ne groups.length_le short
  length_eq := groups.length_eq

/-- All groups but the first have three digits. -/
theorem map_length (groups : AreGroups first others) :
    others.map List.length = List.replicate others.length 3 :=
  List.map_eq_replicate_iff.2 groups.length_eq

/-- The number of digits tells how many groups there are and how long the first one is. -/
theorem length_flatten (groups : AreGroups first others) :
    (first :: others).flatten.length = first.length + 3 * others.length := by
  rw [List.flatten_cons, List.length_append, List.length_flatten, groups.map_length,
    List.sum_replicate_nat, Nat.mul_comm]

/-- The first group is full exactly if the number of digits is a multiple of three. -/
theorem length_eq_three_iff (groups : AreGroups first others) :
    first.length = 3 ↔ 3 ∣ (first :: others).flatten.length := by
  have hpositive := groups.positive
  have hle := groups.length_le
  rw [groups.length_flatten]
  omega

/-- Digits are in such groups in one way. -/
theorem unique (groups : AreGroups first others) (groups' : AreGroups first' others')
    (same : (first :: others).flatten = (first' :: others').flatten) :
    first :: others = first' :: others' := by
  have hlength := congrArg List.length same
  rw [groups.length_flatten, groups'.length_flatten] at hlength
  have hbounds := And.intro groups.positive groups.length_le
  have hbounds' := And.intro groups'.positive groups'.length_le
  obtain ⟨hfirst, hothers⟩ : first.length = first'.length ∧ others.length = others'.length := by omega
  refine List.eq_iff_flatten_eq.2 ⟨same, ?_⟩
  rw [List.map_cons, List.map_cons, groups.map_length, groups'.map_length, hfirst, hothers]

end AreGroups

/-! ### Texts that fall into groups -/

/-- Whether a text falls at its commas into groups of three digits, where the first group may be shorter. -/
def FallsIntoGroups (text : List Char) : Prop :=
  ∃ first others, text.splitOn ',' = first :: others ∧ AreGroups first others

/-- Digits that are separated fall into groups. -/
theorem fallsIntoGroups_separated (some : digits ≠ []) (areDigits : ∀ c ∈ digits, c.isDigit) :
    FallsIntoGroups (separated digits) := by
  induction digits with
  | nil => exact absurd rfl some
  | cons c rest ih =>
    obtain ⟨hc, hrest⟩ := List.forall_mem_cons.1 areDigits
    have hne : c ≠ ',' := ne_of_isDigit hc rfl
    have hsingle : [c].splitOn ',' = [[c]] := List.splitOn_eq_singleton (by simpa using hne.symm)
    rcases eq_or_ne rest [] with rfl | more
    · exact ⟨[c], [], hsingle, .singleton hc⟩
    · obtain ⟨first, others, hsplit, groups⟩ := ih more hrest
      have hflatten : (first :: others).flatten = rest := by
        rw [← hsplit, flatten_splitOn_comma,
          withoutCommas_separated fun mem => ne_of_isDigit (hrest _ mem) rfl rfl]
      -- The lengths that `separated` looks at tell whether the first group is full.
      have hfull : first.length = 3 ↔ 0 < rest.length ∧ 3 ∣ rest.length := by
        rw [groups.length_eq_three_iff, hflatten, and_iff_right (List.length_pos_of_ne_nil more)]
      rw [separated]
      split_ifs with full
      · refine ⟨[c], first :: others, ?_, groups.single_cons hc (hfull.2 full)⟩
        have happend := List.splitOn_append_cons_self (a := ',') [c] (separated rest)
        rwa [hsingle, hsplit] at happend
      · refine ⟨c :: first, others, ?_, groups.cons hc (mt hfull.1 full)⟩
        rw [List.splitOn_cons_eq_if_modifyHead, if_neg (by simpa using hne), hsplit, List.modifyHead_cons]

/-- Digits have one text that falls into groups. -/
theorem FallsIntoGroups.unique {text other : List Char} (falls : FallsIntoGroups text)
    (falls' : FallsIntoGroups other) (same : withoutCommas text = withoutCommas other) : text = other := by
  obtain ⟨first, others, hsplit, groups⟩ := falls
  obtain ⟨first', others', hsplit', groups'⟩ := falls'
  rw [← flatten_splitOn_comma, ← flatten_splitOn_comma, hsplit, hsplit'] at same
  calc text = [','].intercalate (text.splitOn ',') := (List.intercalate_splitOn ',').symm
    _ = [','].intercalate (other.splitOn ',') := by rw [hsplit, hsplit', groups.unique groups' same]
    _ = other := List.intercalate_splitOn ','

/-! ### The text of a number -/

/-- Without its commas, a number is shown by its digits. -/
theorem withoutCommas_grouped (n : Nat) : withoutCommas (grouped n).toList = Nat.toDigits 10 n := by
  rw [toList_grouped]
  exact withoutCommas_separated fun mem => ne_of_isDigit (isDigit_of_mem_toDigits mem) rfl rfl

/-- And these stand for the number. -/
theorem natOfDigits_withoutCommas_grouped (n : Nat) :
    natOfDigits (withoutCommas (grouped n).toList) = n := by
  rw [withoutCommas_grouped, natOfDigits_toDigits]

/-- Nothing but digits and commas is shown. -/
theorem isDigit_or_eq_comma_of_mem_grouped (mem : c ∈ (grouped n).toList) : c.isDigit ∨ c = ',' := by
  by_cases comma : c = ','
  · exact .inr comma
  · have hleft : c ∈ withoutCommas (grouped n).toList := List.mem_filter.2 ⟨mem, bne_iff_ne.2 comma⟩
    rw [withoutCommas_grouped] at hleft
    exact .inl (isDigit_of_mem_toDigits hleft)

/-- A number falls into groups as it is shown. -/
theorem fallsIntoGroups_grouped (n : Nat) : FallsIntoGroups (grouped n).toList := by
  rw [toList_grouped]
  exact fallsIntoGroups_separated Nat.toDigits_ne_nil fun _ mem => isDigit_of_mem_toDigits mem

/-- **Grouped numbers are read back.**  Without its commas the text of a number is the number as it is
written without groups.  It is the one text that is a numeral of the number without zeros in front once its
commas are left out, and that falls at the commas into a first group of one to three digits and other groups
of exactly three.  Different numbers have different texts. -/
theorem grouped_legible :
    (∀ n, withoutCommas (grouped n).toList = (toString n).toList) ∧
      (∀ n text, grouped n = text ↔
        (IsWhole (withoutCommas text.toList) ∧ natOfDigits (withoutCommas text.toList) = n) ∧
          FallsIntoGroups text.toList) ∧
      Function.Injective grouped := by
  refine ⟨fun n => ?_, fun n text => ⟨?_, ?_⟩, ?_⟩
  · rw [withoutCommas_grouped, Nat.toString_eq_ofList_toDigits, String.toList_ofList]
  · rintro rfl
    refine ⟨⟨?_, natOfDigits_withoutCommas_grouped n⟩, fallsIntoGroups_grouped n⟩
    rw [withoutCommas_grouped]
    exact isWhole_toDigits n
  · rintro ⟨⟨whole, rfl⟩, falls⟩
    refine String.toList_injective ((fallsIntoGroups_grouped _).unique falls ?_)
    exact (withoutCommas_grouped _).trans (toDigits_natOfDigits whole)
  · exact Function.LeftInverse.injective (g := fun text : String => natOfDigits (withoutCommas text.toList))
      natOfDigits_withoutCommas_grouped

example : grouped 1234567 = "1,234,567" := by decide

end CodeCensus.Number
