import CodeCensus.Text.Lines
import CodeCensus.Text.Search
import Mathlib.Data.List.Forall2
import Mathlib.Data.List.Infix

/-!
# Occurrences and lines

What the searches and the cut into lines mean in the vocabulary of lists.  A text occurs in another one
if it is an infix of it, and its first place is the least number of characters after which it is a
prefix.  The lines of a text are its pieces between line feeds.
-/

namespace CodeCensus.Text

/-! ### Occurrences -/

/-- The first occurrence of `needle` in `text` has `place` characters in front of it. -/
def FirstAt (needle text : List Char) (place : Nat) : Prop :=
  needle <+: text.drop place ∧ ∀ earlier < place, ¬ needle <+: text.drop earlier

theorem firstAt_nil_iff {needle : List Char} {place : Nat} :
    FirstAt needle [] place ↔ needle = [] ∧ place = 0 := by
  constructor
  · rintro ⟨here, least⟩
    have hempty : needle = [] := by simpa using here
    refine ⟨hempty, Nat.eq_zero_of_not_pos fun hpos => least 0 hpos ?_⟩
    simp [hempty]
  · rintro ⟨rfl, rfl⟩
    exact ⟨List.nil_prefix, fun earlier hlt => absurd hlt (Nat.not_lt_zero earlier)⟩

/-- Where the needle stands at the front, its first place is the front. -/
theorem firstAt_iff_eq_zero {needle text : List Char} (front : needle <+: text) {place : Nat} :
    FirstAt needle text place ↔ place = 0 := by
  constructor
  · intro first
    exact Nat.eq_zero_of_not_pos fun hpos => first.2 0 hpos front
  · rintro rfl
    exact ⟨front, fun earlier hlt => absurd hlt (Nat.not_lt_zero earlier)⟩

/-- Where it does not, the first place lies behind the first character. -/
theorem firstAt_cons_iff {needle : List Char} {c : Char} {text : List Char}
    (notFront : ¬ needle <+: c :: text) {place : Nat} :
    FirstAt needle (c :: text) place ↔ ∃ behind, FirstAt needle text behind ∧ behind + 1 = place := by
  constructor
  · rintro ⟨here, least⟩
    cases place with
    | zero => exact absurd here notFront
    | succ behind =>
      exact ⟨behind, ⟨here, fun earlier hlt => least (earlier + 1) (by omega)⟩, rfl⟩
  · rintro ⟨behind, ⟨here, least⟩, rfl⟩
    refine ⟨here, fun earlier hlt => ?_⟩
    cases earlier with
    | zero => exact notFront
    | succ earlier => exact least earlier (by omega)

/-- The search finds the first occurrence. -/
theorem firstAt?_eq_some_iff {needle text : List Char} {place : Nat} :
    firstAt? needle text = some place ↔ FirstAt needle text place := by
  induction text generalizing place with
  | nil =>
    rw [firstAt_nil_iff]
    simp only [firstAt?, List.isEmpty_iff]
    split <;> simp_all [eq_comm]
  | cons c text ih =>
    by_cases front : needle <+: c :: text
    · rw [firstAt_iff_eq_zero front]
      simp [firstAt?, List.isPrefixOf_iff_prefix.2 front, eq_comm]
    · rw [firstAt_cons_iff front]
      simp only [firstAt?, List.isPrefixOf_iff_prefix, front, if_false, Option.map_eq_some_iff, ih]

/-- Where nothing is found, the needle does not occur. -/
theorem firstAt?_isSome_iff {needle text : List Char} :
    (firstAt? needle text).isSome ↔ needle <:+: text := by
  induction text with
  | nil =>
    simp only [firstAt?, List.isEmpty_iff, List.infix_nil]
    split <;> simp_all
  | cons c text ih =>
    rw [List.infix_cons_iff, ← ih]
    by_cases front : needle <+: c :: text
    · simp [firstAt?, List.isPrefixOf_iff_prefix.2 front, front]
    · simp [firstAt?, List.isPrefixOf_iff_prefix, front]

@[simp] theorem occursIn_iff {needle text : List Char} :
    occursIn needle text ↔ needle <:+: text :=
  firstAt?_isSome_iff

@[simp] theorem occursIn_eq_false_iff {needle text : List Char} :
    occursIn needle text = false ↔ ¬ needle <:+: text := by
  rw [← occursIn_iff, Bool.not_eq_true]

/-- No place is found if and only if there is no occurrence. -/
theorem firstAt?_eq_none_iff {needle text : List Char} :
    firstAt? needle text = none ↔ ¬ needle <:+: text := by
  rw [← firstAt?_isSome_iff, Option.not_isSome_iff_eq_none]

/-! ### What stands in front -/

/-- A front is found if the text begins with characters that are the same, one by one. -/
theorem after?_eq_some_iff {same : Char → Char → Bool} {front text rest : List Char} :
    after? same front text = some rest ↔
      ∃ read, text = read ++ rest ∧ List.Forall₂ (fun f c => same f c) front read := by
  induction front generalizing text with
  | nil =>
    rw [after?]
    constructor
    · intro found
      exact ⟨[], Option.some.inj found, .nil⟩
    · rintro ⟨read, split, hread⟩
      rw [List.forall₂_nil_left_iff.1 hread] at split
      exact congrArg some split
  | cons f front ih =>
    cases text with
    | nil =>
      refine iff_of_false (Option.some_ne_none rest ∘ Eq.symm) ?_
      rintro ⟨read, split, hread⟩
      rw [(List.nil_eq_append_iff.1 split).1] at hread
      cases hread
    | cons c text =>
      rw [after?]
      constructor
      · intro found
        split at found
        next hsame =>
          obtain ⟨read, rfl, hread⟩ := ih.1 found
          exact ⟨c :: read, rfl, .cons hsame hread⟩
        next => exact absurd found (Option.some_ne_none rest).symm
      · rintro ⟨read, split, hread⟩
        -- The first characters are the same, and what is read behind them is found by the induction.
        cases hread with
        | cons hsame hread =>
          obtain ⟨rfl, rfl⟩ := List.cons.inj split
          rw [if_pos hsame]
          exact ih.2 ⟨_, rfl, hread⟩

/-- A front is found as it is. -/
theorem after?_beq_eq_some_iff {front text rest : List Char} :
    after? (· == ·) front text = some rest ↔ text = front ++ rest := by
  have hequal : ∀ read : List Char, List.Forall₂ (fun f c => (f == c) = true) front read ↔ front = read := by
    intro read
    simp only [beq_iff_eq, List.forall₂_eq_eq_eq]
  rw [after?_eq_some_iff]
  constructor
  · rintro ⟨read, split, hread⟩
    rw [split, (hequal read).1 hread]
  · intro split
    exact ⟨front, split, (hequal front).2 rfl⟩

/-! ### Lines -/

@[simp] theorem lines_nil : lines [] = [[]] := rfl

@[simp] theorem lines_cons_feed (text : List Char) : lines ('\n' :: text) = [] :: lines text := rfl

/-- Every text has a line, if only an empty one. -/
theorem lines_ne_nil (text : List Char) : lines text ≠ [] := by
  cases text with
  | nil => simp
  | cons c text =>
    simp only [lines, List.foldr_cons, consLine.eq_def]
    split
    · simp
    · split <;> simp

/-- A character that is no line feed extends the first line. -/
theorem lines_cons_of_ne {c : Char} (noFeed : c ≠ '\n') (text : List Char) :
    lines (c :: text) = (lines text).modifyHead (c :: ·) := by
  obtain ⟨line, more, hlines⟩ := List.exists_cons_of_ne_nil (lines_ne_nil text)
  have hcons : lines (c :: text) = consLine c (lines text) := rfl
  rw [hcons, hlines]
  simp [consLine, noFeed]

/-- The lines of a text are its pieces between line feeds. -/
theorem lines_eq_splitOn (text : List Char) : lines text = text.splitOn '\n' := by
  induction text with
  | nil => simp
  | cons c text ih =>
    rw [List.splitOn_cons_eq_if_modifyHead, ← ih]
    by_cases feed : c = '\n'
    · subst feed
      simp
    · simp [feed, lines_cons_of_ne feed]

/-- A line feed between two texts lies between their lines. -/
theorem lines_append_feed (front behind : List Char) :
    lines (front ++ '\n' :: behind) = lines front ++ lines behind := by
  induction front with
  | nil => rfl
  | cons c front ih =>
    by_cases feed : c = '\n'
    · subst feed
      rw [List.cons_append, lines_cons_feed, lines_cons_feed, ih, List.cons_append]
    · obtain ⟨line, more, hlines⟩ := List.exists_cons_of_ne_nil (lines_ne_nil front)
      rw [List.cons_append, lines_cons_of_ne feed, lines_cons_of_ne feed, ih, hlines, List.cons_append,
        List.modifyHead_cons, List.modifyHead_cons, List.cons_append]

/-- There is one line more than there are line feeds. -/
theorem length_lines (text : List Char) : (lines text).length = 1 + text.count '\n' := by
  induction text with
  | nil => rfl
  | cons c text ih =>
    by_cases feed : c = '\n'
    · subst feed
      rw [lines_cons_feed, List.length_cons, ih, List.count_cons_self]
      omega
    · rw [lines_cons_of_ne feed, List.length_modifyHead, ih, List.count_cons_of_ne feed]

/-- No line has a line feed in it. -/
theorem feed_notMem_of_mem_lines {line text : List Char} (mem : line ∈ lines text) : '\n' ∉ line := by
  induction text generalizing line with
  | nil =>
    rw [lines_nil, List.mem_singleton] at mem
    simp [mem]
  | cons c text ih =>
    by_cases feed : c = '\n'
    · subst feed
      rcases List.mem_cons.1 mem with rfl | mem
      · exact List.not_mem_nil
      · exact ih mem
    · obtain ⟨first, more, hlines⟩ := List.exists_cons_of_ne_nil (lines_ne_nil text)
      rw [lines_cons_of_ne feed, hlines, List.modifyHead_cons] at mem
      rcases List.mem_cons.1 mem with rfl | mem
      · have hfirst : '\n' ∉ first := ih (hlines ▸ List.mem_cons_self)
        simp [hfirst, Ne.symm feed]
      · exact ih (hlines ▸ List.mem_cons_of_mem first mem)

/-- The lines of a text that is made of lines are these lines. -/
theorem lines_intercalate {parts : List (List Char)} (noFeed : ∀ line ∈ parts, '\n' ∉ line)
    (some : parts ≠ []) : lines (['\n'].intercalate parts) = parts := by
  rw [lines_eq_splitOn, List.splitOn_intercalate _ noFeed some]

/-! ### Line feeds with carriage returns -/

/-- A text with a carriage return in front of every line feed. -/
def withReturns (text : List Char) : List Char :=
  text.flatMap fun c => if c = '\n' then ['\r', '\n'] else [c]

theorem withReturns_cons_feed (text : List Char) :
    withReturns ('\n' :: text) = '\r' :: '\n' :: withReturns text := rfl

theorem withReturns_cons_of_ne {c : Char} (noFeed : c ≠ '\n') (text : List Char) :
    withReturns (c :: text) = c :: withReturns text := by
  rw [withReturns, List.flatMap_cons, if_neg noFeed]
  rfl

/-- Some lines with a carriage return behind each of them but the last. -/
def returned : List (List Char) → List (List Char)
  | [] => []
  | [last] => [last]
  | line :: next :: rest => (line ++ ['\r']) :: returned (next :: rest)

/-- A line with others behind it gets its carriage return. -/
theorem returned_cons {rest : List (List Char)} (some : rest ≠ []) (line : List Char) :
    returned (line :: rest) = (line ++ ['\r']) :: returned rest := by
  cases rest with
  | nil => exact absurd rfl some
  | cons next rest => rfl

/-- Every line gets its carriage return, except the last one, which has no line feed behind it. -/
theorem lines_withReturns (text : List Char) : lines (withReturns text) = returned (lines text) := by
  induction text with
  | nil => rfl
  | cons c text ih =>
    by_cases feed : c = '\n'
    · subst feed
      have hreturn : '\r' ≠ '\n' := by decide
      rw [withReturns_cons_feed, lines_cons_of_ne hreturn, lines_cons_feed, lines_cons_feed, ih,
        returned_cons (lines_ne_nil text)]
      rfl
    · rw [withReturns_cons_of_ne feed, lines_cons_of_ne feed, lines_cons_of_ne feed, ih]
      obtain ⟨line, rest, hlines⟩ := List.exists_cons_of_ne_nil (lines_ne_nil text)
      rw [hlines, List.modifyHead_cons]
      cases rest with
      | nil => rfl
      | cons next rest => rfl

end CodeCensus.Text
