import CodeCensus.Text.Blank
import Mathlib.Data.List.DropRight
import Mathlib.Data.List.Infix
import Mathlib.Data.List.TakeWhile

/-!
# Margins

What is left of a text whose ends are stripped.  It is a part of the text between two stretches of
stripped characters, it does not begin or end with such a character, and it does not change when more of
them are put around the text.
-/

namespace CodeCensus.Text

/-! ### Stripping any characters -/

section Strip

variable {p : Char → Bool} {left right text : List Char}

theorem stripEnd_eq_rdropWhile (p : Char → Bool) (text : List Char) :
    stripEnd p text = text.rdropWhile p := rfl

/-- Stripped characters at the end do not count. -/
theorem stripEnd_append (stripped : ∀ c ∈ right, p c) : stripEnd p (text ++ right) = stripEnd p text := by
  have hreverse : ∀ c ∈ right.reverse, p c := fun c hc => stripped c (List.mem_reverse.1 hc)
  rw [stripEnd, stripEnd, List.reverse_append, List.dropWhile_append_of_pos hreverse]

/-- Nothing is left of a text if and only if it only has characters that are taken off. -/
theorem strip_eq_nil_iff : strip p text = [] ↔ ∀ c ∈ text, p c := by
  rw [strip, stripEnd_eq_rdropWhile, List.rdropWhile_eq_nil_iff]
  constructor
  · intro rest c hc
    rw [← List.takeWhile_append_dropWhile (p := p) (l := text), List.mem_append] at hc
    rcases hc with front | behind
    · exact List.mem_takeWhile_imp front
    · exact rest c behind
  · intro all c hc
    exact all c ((List.dropWhile_sublist p).subset hc)

/-- Stripped characters in front do not count. -/
theorem strip_append_left (stripped : ∀ c ∈ left, p c) : strip p (left ++ text) = strip p text := by
  rw [strip, strip, List.dropWhile_append_of_pos stripped]

/-- Nor do stripped characters at the end, also where nothing else is there. -/
theorem strip_append_right (stripped : ∀ c ∈ right, p c) : strip p (text ++ right) = strip p text := by
  by_cases all : ∀ c ∈ text, p c
  · have hboth : ∀ c ∈ text ++ right, p c := by
      intro c hc
      rcases List.mem_append.1 hc with front | behind
      · exact all c front
      · exact stripped c behind
    rw [strip_eq_nil_iff.2 all, strip_eq_nil_iff.2 hboth]
  · have hrest : ¬ (text.dropWhile p).isEmpty := by
      rw [List.isEmpty_iff, List.dropWhile_eq_nil_iff]
      exact all
    rw [strip, List.dropWhile_append, if_neg hrest, stripEnd_append stripped, ← strip]

/-- A text is what is left of it, between stripped characters. -/
theorem exists_strip (p : Char → Bool) (text : List Char) :
    ∃ left right, text = left ++ strip p text ++ right ∧ (∀ c ∈ left, p c) ∧ ∀ c ∈ right, p c := by
  refine ⟨text.takeWhile p, (text.dropWhile p).rtakeWhile p, ?_, ?_, ?_⟩
  · rw [strip, stripEnd_eq_rdropWhile, List.append_assoc, List.rdropWhile_append_rtakeWhile,
      List.takeWhile_append_dropWhile]
  · intro c hc
    exact List.mem_takeWhile_imp hc
  · intro c hc
    exact List.mem_rtakeWhile_imp hc

theorem strip_infix_self (p : Char → Bool) (text : List Char) : strip p text <:+: text := by
  obtain ⟨left, right, split, -, -⟩ := exists_strip p text
  exact ⟨left, right, split.symm⟩

/-- All characters that are not stripped are left. -/
theorem countP_strip (p : Char → Bool) (text : List Char) :
    (strip p text).countP (!p ·) = text.countP (!p ·) := by
  obtain ⟨left, right, split, hleft, hright⟩ := exists_strip p text
  have hnothing : ∀ ends : List Char, (∀ c ∈ ends, p c) → ends.countP (!p ·) = 0 := by
    intro ends stripped
    rw [List.countP_eq_zero]
    intro c hc
    simp [stripped c hc]
  have hcount := congrArg (List.countP (!p ·)) split
  rw [List.countP_append, List.countP_append, hnothing left hleft, hnothing right hright] at hcount
  omega

/-- A text without stripped characters does not reach into what is stripped in front of another. -/
theorem infix_append_iff_of_stripped {mark : List Char} (visible : mark ≠ []) (kept : ∀ c ∈ mark, ¬ p c)
    (stripped : ∀ c ∈ left, p c) : mark <:+: left ++ text ↔ mark <:+: text := by
  induction left with
  | nil => rw [List.nil_append]
  | cons c left ih =>
    have hfront : ¬ mark <+: c :: (left ++ text) := by
      obtain ⟨first, rest, rfl⟩ := List.exists_cons_of_ne_nil visible
      intro front
      rw [List.cons_prefix_cons] at front
      exact kept first List.mem_cons_self (front.1 ▸ stripped c List.mem_cons_self)
    rw [List.cons_append, List.infix_cons_iff, or_iff_right hfront]
    exact ih fun d hd => stripped d (List.mem_cons_of_mem c hd)

/-- Such a text occurs in what is left of another one exactly if it occurs in that one. -/
theorem infix_strip_iff {mark : List Char} (visible : mark ≠ []) (kept : ∀ c ∈ mark, ¬ p c)
    (text : List Char) : mark <:+: strip p text ↔ mark <:+: text := by
  obtain ⟨left, right, split, hleft, hright⟩ := exists_strip p text
  have hright' : ∀ c ∈ right.reverse, p c := fun c hc => hright c (List.mem_reverse.1 hc)
  have hkept : ∀ c ∈ mark.reverse, ¬ p c := fun c hc => kept c (List.mem_reverse.1 hc)
  have hvisible : mark.reverse ≠ [] := fun nothing => visible (List.reverse_eq_nil_iff.1 nothing)
  have hbehind : mark <:+: strip p text ++ right ↔ mark <:+: strip p text := by
    rw [← List.reverse_infix, List.reverse_append, infix_append_iff_of_stripped hvisible hkept hright',
      List.reverse_infix]
  conv_rhs => rw [split]
  rw [List.append_assoc, infix_append_iff_of_stripped visible kept hleft, hbehind]

/-- What is left does not begin with a stripped character. -/
theorem not_of_mem_head?_strip {c : Char} (first : c ∈ (strip p text).head?) : ¬ p c := by
  have hprefix : strip p text <+: text.dropWhile p := List.rdropWhile_prefix p (text.dropWhile p)
  cases hstrip : strip p text with
  | nil => simp [hstrip] at first
  | cons d rest =>
    have hd : d = c := by simpa [hstrip] using first
    obtain ⟨behind, hbehind⟩ := hstrip ▸ hprefix
    have hfirst := List.head?_dropWhile_not p text
    rw [← hbehind] at hfirst
    simpa [hd] using hfirst

/-- Nor does it end with one. -/
theorem not_of_mem_getLast?_strip {c : Char} (last : c ∈ (strip p text).getLast?) : ¬ p c := by
  obtain ⟨visible, rfl⟩ := List.mem_getLast?_eq_getLast last
  exact List.rdropWhile_last_not p (text.dropWhile p) visible

end Strip

/-! ### The margins of a line -/

section TrimLine

variable {left right line : List Char}

/-- A line without visible characters is all margin. -/
theorem trimLine_eq_nil_iff : trimLine line = [] ↔ ∀ c ∈ line, isMargin c :=
  strip_eq_nil_iff

/-- The margins around a line do not matter. -/
theorem trimLine_pad (hleft : ∀ c ∈ left, isMargin c) (hright : ∀ c ∈ right, isMargin c) :
    trimLine (left ++ line ++ right) = trimLine line := by
  rw [trimLine, strip_append_right hright, strip_append_left hleft, ← trimLine]

/-- No character is lost that does not count as a margin. -/
theorem countP_trimLine (line : List Char) :
    (trimLine line).countP (!isMargin ·) = line.countP (!isMargin ·) :=
  countP_strip isMargin line

/-- A carriage return at the end of a line is a part of its margin. -/
theorem trimLine_return (line : List Char) : trimLine (line ++ ['\r']) = trimLine line :=
  strip_append_right (List.forall_mem_singleton.2 rfl)

/-- A text that neither begins nor ends with a margin character. -/
def HasNoMargins (text : List Char) : Prop :=
  (∀ c ∈ text.head?, ¬ isMargin c) ∧ ∀ c ∈ text.getLast?, ¬ isMargin c

/-- A trimmed line has no margins left. -/
theorem hasNoMargins_trimLine (line : List Char) : HasNoMargins (trimLine line) :=
  ⟨fun _ => not_of_mem_head?_strip, fun _ => not_of_mem_getLast?_strip⟩

theorem trimLine_infix_self (line : List Char) : trimLine line <:+: line :=
  strip_infix_self isMargin line

end TrimLine

end CodeCensus.Text
