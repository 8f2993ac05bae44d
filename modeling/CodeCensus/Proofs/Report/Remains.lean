import CodeCensus.Proofs.Report.Plain
import Mathlib.Data.List.Infix

/-!
# Escape characters that remain

A text is freed of escape sequences, and not of the characters that introduce them.  An introducer stays
if no sequence follows it, which is decided by very little: behind any of the characters that may stand in
front of the numbers, a digit or a final character has to come (`lengthBehind?_isSome_iff`).  No sequence
takes an introducer away, so an introducer remains in the end exactly where it stood without a sequence in
the beginning (`mem_strip_iff`).

In a report the styles are sequences, so what remains comes from the strings that are shown.  Their escape
characters all go if and only if a sequence follows each of them, in the same string or in whatever is
shown behind it (`escape_notMem_render_iff`).
-/

namespace CodeCensus.Report

namespace Escapes

/-! ### Where a sequence begins -/

/-- Whether a character may stand in front of the numbers of a sequence. -/
def opensSequence (c : Char) : Bool :=
  c == '[' || c == '(' || c == ')' || c == '#' || c == ';' || c == '?'

/-- Behind any number of opening characters a digit or a final character comes. -/
def BeginsSequence (rest : List Char) : Prop :=
  ∃ c ∈ (rest.dropWhile opensSequence).head?, c.isDigit ∨ endsSequence c

instance (rest : List Char) : Decidable (BeginsSequence rest) :=
  inferInstanceAs (Decidable (∃ c ∈ (rest.dropWhile opensSequence).head?, c.isDigit ∨ endsSequence c))

/-- The states in which no number has begun. -/
def State.isEarly : State → Bool
  | .begun | .parenthesis | .opening => true
  | .digits _ | .semicolon | .complete => false

variable {c : Char} {state : State} {read n : Nat} {best : Option Nat} {rest text : List Char}

/-- A sequence that has been found is not lost. -/
theorem longest_isSome_of_isSome (found : best.isSome) : (longest state read best rest).isSome := by
  induction rest generalizing state read best with
  | nil => exact found
  | cons c rest ih =>
    rw [longest]
    split
    · exact found
    · apply ih
      split
      · rfl
      · exact found

/-- Opening characters lead to no number and to no end. -/
theorem next?_of_opensSequence (early : state.isEarly) (opens : opensSequence c) :
    ∃ next, state.next? c = some next ∧ next.isEarly ∧ next.isFinal = false := by
  simp only [opensSequence, Bool.or_eq_true, beq_iff_eq] at opens
  rcases opens with ((((rfl | rfl) | rfl) | rfl) | rfl) | rfl <;> cases state <;> cases early <;>
    exact ⟨_, rfl, rfl, rfl⟩

/-- A character that opens nothing leads on only as a digit or as a final character. -/
theorem next?_of_not_opensSequence (early : state.isEarly) (opens : opensSequence c = false) :
    state.next? c =
      if c.isDigit then
        if state = .parenthesis ∧ c ≤ '2' then some .complete else some (.digits 1)
      else if endsSequence c then some .complete else none := by
  simp only [opensSequence, Bool.or_eq_false_iff, beq_eq_false_iff_ne] at opens
  obtain ⟨⟨⟨⟨⟨bracket, left⟩, right⟩, hash⟩, semicolon⟩, question⟩ := opens
  unfold State.next?
  cases state <;> cases early <;> simp [bracket, left, right, hash, semicolon, question]

/-- Digits and final characters end a sequence in which no number has begun. -/
theorem next?_of_ends (early : state.isEarly) (opens : opensSequence c = false)
    (ends : c.isDigit ∨ endsSequence c) :
    ∃ next, state.next? c = some next ∧ next.isFinal := by
  rw [next?_of_not_opensSequence early opens]
  by_cases digit : c.isDigit
  · rw [if_pos digit]
    split
    · exact ⟨_, rfl, rfl⟩
    · exact ⟨_, rfl, rfl⟩
  · have final : endsSequence c := ends.resolve_left digit
    rw [if_neg digit, if_pos final]
    exact ⟨_, rfl, rfl⟩

/-- No other character belongs to a sequence in which no number has begun. -/
theorem next?_of_not_ends (early : state.isEarly) (opens : opensSequence c = false)
    (ends : ¬ (c.isDigit ∨ endsSequence c)) : state.next? c = none := by
  obtain ⟨digit, final⟩ := not_or.1 ends
  rw [next?_of_not_opensSequence early opens, if_neg digit, if_neg final]

/-- A character that may stand in front of the numbers decides nothing. -/
theorem beginsSequence_cons_of_opens (opens : opensSequence c) :
    BeginsSequence (c :: rest) ↔ BeginsSequence rest := by
  rw [BeginsSequence, BeginsSequence, List.dropWhile_cons_of_pos opens]

/-- Any other character decides by itself. -/
theorem beginsSequence_cons_of_not_opens (opens : opensSequence c = false) :
    BeginsSequence (c :: rest) ↔ c.isDigit ∨ endsSequence c := by
  rw [BeginsSequence, List.dropWhile_cons_of_neg (by simp [opens])]
  simp

/-- As long as no number has begun, a sequence is found exactly where one begins. -/
theorem longest_isSome_iff (early : state.isEarly) :
    (longest state read none rest).isSome ↔ BeginsSequence rest := by
  induction rest generalizing state read with
  | nil => simp [longest, BeginsSequence]
  | cons c rest ih =>
    rw [longest]
    cases opens : opensSequence c with
    | true =>
      obtain ⟨next, hnext, hearly, hfinal⟩ := next?_of_opensSequence early opens
      rw [beginsSequence_cons_of_opens opens, ← ih hearly]
      simp only [hnext, hfinal]
      rfl
    | false =>
      rw [beginsSequence_cons_of_not_opens opens]
      by_cases ends : c.isDigit ∨ endsSequence c
      · obtain ⟨next, hnext, hfinal⟩ := next?_of_ends early opens ends
        simp only [hnext, hfinal, ends, iff_true]
        exact longest_isSome_of_isSome rfl
      · simp only [next?_of_not_ends early opens ends, ends, Option.isSome_none, Bool.false_eq_true]

/-- Behind an introducer a sequence is found exactly where one begins. -/
theorem lengthBehind?_isSome_iff : (lengthBehind? rest).isSome ↔ BeginsSequence rest :=
  longest_isSome_iff rfl

/-! ### What a sequence takes away -/

/-- An introducer belongs to no sequence but as its first character. -/
theorem next?_of_isIntroducer (introducer : isIntroducer c) : state.next? c = none := by
  simp only [isIntroducer, Bool.or_eq_true, beq_iff_eq] at introducer
  rcases introducer with rfl | rfl <;> cases state <;> rfl

/-- No introducer is among the characters of a sequence. -/
theorem longest_eq_some {length : Nat} (found : longest state read best rest = some length) :
    best = some length ∨
      ∃ n, length = read + n ∧ ∀ c ∈ rest.take n, isIntroducer c = false := by
  induction rest generalizing state read best with
  | nil => exact .inl found
  | cons c rest ih =>
    rw [longest] at found
    split at found
    · exact .inl found
    · next next hnext =>
      have hc : isIntroducer c = false := by
        rw [← Bool.not_eq_true]
        intro introducer
        rw [next?_of_isIntroducer introducer] at hnext
        cases hnext
      rcases ih found with here | ⟨n, rfl, others⟩
      · split at here
        · cases here
          refine .inr ⟨1, rfl, ?_⟩
          simpa using hc
        · exact .inl here
      · refine .inr ⟨n + 1, by omega, ?_⟩
        rw [List.take_succ_cons, List.forall_mem_cons]
        exact ⟨hc, others⟩

/-- A sequence has no introducer behind its first character. -/
theorem isIntroducer_of_mem_take (found : lengthBehind? rest = some n) :
    ∀ c ∈ rest.take n, isIntroducer c = false := by
  rcases longest_eq_some found with none | ⟨m, hm, others⟩
  · cases none
  · rw [hm, Nat.zero_add]
    exact others

/-- What begins with an introducer and ends a text ends the text behind a part without introducers. -/
theorem suffix_append_iff {part : List Char} (introducer : isIntroducer c)
    (plain : ∀ d ∈ part, isIntroducer d = false) :
    c :: rest <:+ part ++ text ↔ c :: rest <:+ text := by
  induction part with
  | nil => rfl
  | cons d part ih =>
    obtain ⟨hd, others⟩ := List.forall_mem_cons.1 plain
    rw [List.cons_append, List.suffix_cons_iff, ih others]
    refine or_iff_right fun same => ?_
    obtain ⟨rfl, _⟩ := List.cons.inj same
    exact Bool.false_ne_true (hd.symm.trans introducer)

/-- A character stands in front of something in a text, at its beginning or further behind. -/
theorem exists_suffix_cons_iff {d : Char} {property : List Char → Prop} :
    (∃ rest, c :: rest <:+ d :: text ∧ property rest) ↔
      c = d ∧ property text ∨ ∃ rest, c :: rest <:+ text ∧ property rest := by
  constructor
  · rintro ⟨rest, suffix, hrest⟩
    rcases List.suffix_cons_iff.1 suffix with same | suffix
    · obtain ⟨rfl, rfl⟩ := List.cons.inj same
      exact .inl ⟨rfl, hrest⟩
    · exact .inr ⟨rest, suffix, hrest⟩
  · rintro (⟨rfl, htext⟩ | ⟨rest, suffix, hrest⟩)
    · exact ⟨text, List.suffix_rfl, htext⟩
    · exact ⟨rest, List.suffix_cons_iff.2 (.inr suffix), hrest⟩

/-- **Introducers that remain.**  An introducer remains exactly if it stands somewhere without a sequence
behind it. -/
theorem mem_strip_iff (introducer : isIntroducer c) :
    c ∈ strip text ↔ ∃ rest, c :: rest <:+ text ∧ ¬ BeginsSequence rest := by
  induction text using strip.induct with
  | case1 => simp [strip]
  | case2 d text hd n found ih =>
    have hbegins : BeginsSequence text := lengthBehind?_isSome_iff.1 (by rw [found]; rfl)
    have hdrop : ∀ rest, c :: rest <:+ text.drop n ↔ c :: rest <:+ text := by
      intro rest
      have happend : c :: rest <:+ text.take n ++ text.drop n ↔ c :: rest <:+ text.drop n :=
        suffix_append_iff introducer (isIntroducer_of_mem_take found)
      rw [List.take_append_drop] at happend
      exact happend.symm
    rw [strip, if_pos hd, found, ih, exists_suffix_cons_iff, or_iff_right fun here => here.2 hbegins]
    simp only [hdrop]
  | case3 d text hd found ih =>
    have hbegins : ¬ BeginsSequence text := by
      rw [← lengthBehind?_isSome_iff, found]
      exact Bool.false_ne_true
    rw [strip, if_pos hd, found, List.mem_cons, ih, exists_suffix_cons_iff, and_iff_left hbegins]
  | case4 d text hd ih =>
    have hne : c ≠ d := by
      rintro rfl
      exact hd introducer
    rw [strip, if_neg hd, List.mem_cons, or_iff_right hne, ih, exists_suffix_cons_iff,
      or_iff_right fun here => hne here.1]

end Escapes

namespace Styled

open Escapes (BeginsSequence isIntroducer)

variable {c : Char} {piece : Piece} {styled : Styled} {behind : List Char}

/-! ### Styled texts -/

/-- A character stands in a text of a styled text, and something is sent to the terminal behind it. -/
def Shows (styled : Styled) (c : Char) (behind : List Char) : Prop :=
  ∃ before front rest after, styled = before ++ .text (front ++ c :: rest) :: after ∧
    behind = rest ++ coloured after

/-- What later pieces show is still shown behind a further piece. -/
theorem Shows.cons (shows : styled.Shows c behind) : Shows (piece :: styled) c behind := by
  obtain ⟨before, front, rest, after, rfl, hbehind⟩ := shows
  exact ⟨piece :: before, front, rest, after, rfl, hbehind⟩

/-- What is shown is sent to the terminal. -/
theorem Shows.suffix (shows : styled.Shows c behind) : c :: behind <:+ coloured styled := by
  obtain ⟨before, front, rest, after, rfl, rfl⟩ := shows
  refine ⟨coloured before ++ front, ?_⟩
  simp [coloured]

/-- A sequence begins behind the introducer of a style. -/
theorem beginsSequence_style (style : Style) (behind : List Char) :
    BeginsSequence ('[' :: style.code ++ 'm' :: behind) := by
  cases style <;> exact ⟨_, rfl, .inl rfl⟩

/-- An introducer that is sent to the terminal stands in a text, or it belongs to a style. -/
theorem shows_or_beginsSequence (introducer : isIntroducer c)
    (suffix : c :: behind <:+ coloured styled) : styled.Shows c behind ∨ BeginsSequence behind := by
  induction styled with
  | nil =>
    have hnil : c :: behind = [] := List.suffix_nil.1 suffix
    cases hnil
  | cons piece styled ih =>
    cases piece with
    | text chars =>
      have hcons : coloured (.text chars :: styled) = chars ++ coloured styled := rfl
      rw [hcons] at suffix
      obtain ⟨front, hfront⟩ := suffix
      rcases List.append_eq_append_iff.1 hfront with ⟨rest, rfl, hrest⟩ | ⟨rest, rfl, hrest⟩
      · -- The introducer stands in the text, or where the next pieces begin.
        cases rest with
        | nil =>
          have hsuffix : c :: behind <:+ coloured styled := ⟨[], hrest⟩
          exact (ih hsuffix).imp_left Shows.cons
        | cons d rest =>
          obtain ⟨rfl, rfl⟩ := List.cons.inj hrest
          exact .inl ⟨[], front, rest, styled, rfl, rfl⟩
      · have hsuffix : c :: behind <:+ coloured styled := ⟨rest, hrest.symm⟩
        exact (ih hsuffix).imp_left Shows.cons
    | style style =>
      have hcons : coloured (.style style :: styled) =
          '\x1b' :: (('[' :: style.code ++ ['m']) ++ coloured styled) := rfl
      have hplain : ∀ d ∈ '[' :: style.code ++ ['m'], isIntroducer d = false := by
        cases style <;> simp [Style.code, Escapes.isIntroducer]
      rw [hcons, List.suffix_cons_iff, Escapes.suffix_append_iff introducer hplain] at suffix
      rcases suffix with same | suffix
      · obtain ⟨-, rfl⟩ := List.cons.inj same
        have hbegins := beginsSequence_style style (coloured styled)
        rw [List.append_assoc]
        exact .inr hbegins
      · exact (ih suffix).imp_left Shows.cons

/-- **What remains of a styled text.**  An introducer remains exactly if it stands in one of its texts
without a sequence behind it. -/
theorem mem_strip_coloured_iff (introducer : isIntroducer c) :
    c ∈ Escapes.strip styled.coloured ↔ ∃ behind, styled.Shows c behind ∧ ¬ BeginsSequence behind := by
  rw [Escapes.mem_strip_iff introducer]
  constructor
  · rintro ⟨behind, suffix, notBegins⟩
    have shows := (shows_or_beginsSequence introducer suffix).resolve_right notBegins
    exact ⟨behind, shows, notBegins⟩
  · rintro ⟨behind, shows, notBegins⟩
    exact ⟨behind, shows.suffix, notBegins⟩

end Styled

/-! ### The report -/

open Escapes (BeginsSequence)

/-- An escape character remains if and only if one is shown in front of something that begins no sequence.
-/
theorem escape_mem_textReport_iff {r : Report} :
    '\x1b' ∈ textReport r false ↔
      ∃ behind, (styled r).Shows '\x1b' behind ∧ ¬ BeginsSequence behind :=
  Styled.mem_strip_coloured_iff rfl

/-- **When no escape character remains.**  The report without colours has no escape character if and only
if a sequence follows each one in the texts that are shown: any number of opening characters, and then a
digit or a final character, be it in the same text or behind it. -/
theorem escape_notMem_render_iff (r : Report) :
    '\x1b' ∉ (render r .text false).toList ↔
      ∀ behind, (styled r).Shows '\x1b' behind → BeginsSequence behind := by
  have htext : (render r .text false).toList = textReport r false := String.toList_ofList
  rw [htext, escape_mem_textReport_iff]
  push Not
  rfl

/-- A name in which an escape character stands in front of a sequence, with the rest of another sequence
behind it. -/
def splicedName : String := "\x1b\x1b[0m[31mred"

/-- Where the sequence in the middle of the name is removed, what stood around it becomes a sequence. -/
theorem not_forall_escape_notMem_render : ¬ ∀ r : Report, '\x1b' ∉ (render r .text false).toList := by
  intro law
  have hnone := law (emptyReport splicedName)
  have htext : (render (emptyReport splicedName) .text false).toList =
      textReport (emptyReport splicedName) false := String.toList_ofList
  rw [htext, escape_mem_textReport_iff] at hnone
  apply hnone
  refine ⟨_, ⟨[.text ['\n'], .style .bold, .style .cyan], "Codebase Statistics: ".toList,
    "\x1b[0m[31mred".toList, _, rfl, rfl⟩, ?_⟩
  rintro ⟨c, first, ends⟩
  obtain rfl : c = '\x1b' := (Option.some.inj first).symm
  exact absurd ends (by decide)

end CodeCensus.Report
