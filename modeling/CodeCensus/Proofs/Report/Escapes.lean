import CodeCensus.Report.Escapes
import CodeCensus.Report.Styled
import Mathlib.Data.List.Basic

/-!
# Removing styles

Removing the escape sequences of a coloured text takes away its changes of style and nothing else, if no
sequence is introduced by the text itself (`strip_coloured`).

A sequence is taken as long as possible, so it matters what comes behind it.  The sequence of a style
ends in a letter, after which no sequence goes on, whatever comes: neither digits nor letters of the text
are ever taken for a part of it.
-/

namespace CodeCensus.Report

namespace Escapes

/-! ### One sequence -/

/-- A sequence does not go on behind its final character. -/
theorem next?_complete (c : Char) : State.complete.next? c = none := by
  unfold State.next?
  split_ifs <;> rfl

/-- Behind a final character, the longest sequence that was found is the one. -/
theorem longest_complete (read : Nat) (best : Option Nat) (rest : List Char) :
    longest .complete read best rest = best := by
  cases rest with
  | nil => rfl
  | cons c rest => rw [longest, next?_complete]

/-- The sequence of a style is taken as it is. -/
theorem lengthBehind?_sequence (style : Style) (rest : List Char) :
    lengthBehind? ('[' :: style.code ++ 'm' :: rest) = some (style.code.length + 2) := by
  cases style <;> exact longest_complete _ _ rest

/-! ### A whole text -/

variable {c : Char} {chars rest : List Char}

theorem strip_cons (plain : isIntroducer c = false) : strip (c :: rest) = c :: strip rest := by
  rw [strip, plain]
  rfl

/-- What introduces no sequence stays. -/
theorem strip_append (plain : ∀ c ∈ chars, isIntroducer c = false) :
    strip (chars ++ rest) = chars ++ strip rest := by
  induction chars with
  | nil => rfl
  | cons c chars ih =>
    obtain ⟨first, others⟩ := List.forall_mem_cons.1 plain
    rw [List.cons_append, strip_cons first, ih others]
    rfl

/-- The sequence of a style is removed. -/
theorem strip_sequence_append (style : Style) : strip (style.sequence ++ rest) = strip rest := by
  have hsequence : style.sequence ++ rest = '\x1b' :: ('[' :: style.code ++ 'm' :: rest) := by
    simp [Style.sequence]
  have hdrop : ('[' :: style.code ++ 'm' :: rest).drop (style.code.length + 2) = rest := by
    simp
  have hintroducer : isIntroducer '\x1b' = true := rfl
  rw [hsequence, strip, if_pos hintroducer, lengthBehind?_sequence]
  exact congrArg strip hdrop

end Escapes

namespace Styled

open Escapes (isIntroducer strip)

variable {first second : Styled} {style : Style}

/-! ### The parts of a styled text -/

@[simp] theorem uncoloured_nil : uncoloured [] = [] := rfl

/-- Pieces in a row say what they say one by one. -/
@[simp] theorem uncoloured_append :
    uncoloured (first ++ second) = first.uncoloured ++ second.uncoloured :=
  List.flatMap_append

@[simp] theorem uncoloured_plain (s : String) : (plain s).uncoloured = s.toList := by
  simp [plain, uncoloured]

/-- A style around some pieces says nothing. -/
@[simp] theorem uncoloured_under (styles : List Style) (inner : Styled) :
    (under styles inner).uncoloured = inner.uncoloured := by
  have hstyles : uncoloured (styles.map .style) = [] := by
    rw [uncoloured, List.flatMap_map, List.flatMap_eq_nil_iff]
    exact fun _ _ => rfl
  rw [under, uncoloured_append, uncoloured_append, hstyles]
  exact List.append_nil _

@[simp] theorem uncoloured_paint (s : String) : (paint style s).uncoloured = s.toList := by
  rw [paint, uncoloured_under, uncoloured_plain]

/-- Rows say what each of them says. -/
@[simp] theorem uncoloured_flatMap {α : Type} (f : α → Styled) (entries : List α) :
    uncoloured (entries.flatMap f) = entries.flatMap fun entry => (f entry).uncoloured := by
  rw [uncoloured, List.flatMap_assoc]
  rfl

/-- **Removing the styles of a text** leaves the text alone, if it introduces no sequence itself. -/
theorem strip_coloured {styled : Styled} (plain : ∀ c ∈ styled.uncoloured, isIntroducer c = false) :
    strip styled.coloured = styled.uncoloured := by
  induction styled with
  | nil => simp [coloured, strip]
  | cons piece styled ih =>
    cases piece with
    | text chars =>
      have hall : ∀ c ∈ chars ++ uncoloured styled, isIntroducer c = false := plain
      obtain ⟨here, behind⟩ := List.forall_mem_append.1 hall
      have hcons : coloured (.text chars :: styled) = chars ++ coloured styled := rfl
      rw [hcons, Escapes.strip_append here, ih behind]
      rfl
    | style style =>
      have hcons : coloured (.style style :: styled) = style.sequence ++ coloured styled := rfl
      rw [hcons, Escapes.strip_sequence_append, ih plain]
      rfl

end Styled

end CodeCensus.Report
