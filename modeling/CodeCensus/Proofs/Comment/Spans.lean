import CodeCensus.Comment.Classify
import CodeCensus.Proofs.Text
import Mathlib.Data.Nat.Count

/-!
# What a line counts as

The reading of a text carries the open comment from line to line.  This file says without any state
what it counts: a line is inside a comment if some line before it opens one, and no line in between has
the closing marker.  The two notions, being inside and opening, refer to each other, each time to
earlier lines.

The open comment after some lines is then characterised by `OpenBefore`, and the counts of a reading are
the numbers of lines of each kind (`Follows.next` for one line, `follows_read` for all of them).
-/

namespace CodeCensus.Comment

/-! ### One line -/

namespace Style

/-- The line begins with a marker of a comment up to the end of the line. -/
def BeginsSingle (style : Style) (line : List Char) : Prop :=
  ∃ mark ∈ style.single, mark <+: line

/-- The line has the opening marker of an enclosed comment somewhere. -/
def HasOpening (style : Style) (line : List Char) : Prop :=
  ∃ pair ∈ style.block, pair.1 <:+: line

/-- Of the pairs of markers the first one whose opening marker occurs in the line has this closing
marker, and the closing marker is not in the line or stands there before the opening marker. -/
def LeavesOpen (style : Style) (line closeMark : List Char) : Prop :=
  ∃ earlier openMark later, style.block = earlier ++ (openMark, closeMark) :: later ∧
    (∀ pair ∈ earlier, ¬ pair.1 <:+: line) ∧ openMark <:+: line ∧
    (¬ closeMark <:+: line ∨ ∃ closeAt openAt, Text.FirstAt closeMark line closeAt ∧
      Text.FirstAt openMark line openAt ∧ closeAt < openAt)

/-- No closing marker is empty. -/
def ClosesVisibly (style : Style) : Prop :=
  ∀ pair ∈ style.block, pair.2 ≠ []

instance : DecidablePred ClosesVisibly :=
  fun style => inferInstanceAs (Decidable (∀ pair ∈ style.block, pair.2 ≠ []))

/-- A label has one of the listed styles, or it is written as C is. -/
theorem ofLabel_mem (label : String) : ofLabel label ∈ cLike :: families.map Prod.snd := by
  unfold ofLabel
  cases found : families.lookup (Text.fold label) with
  | none => exact List.mem_cons_self
  | some style =>
    obtain ⟨before, after, split, -⟩ := List.lookup_eq_some_iff.1 found
    have hentry : (Text.fold label, style) ∈ families := by simp [split]
    exact List.mem_cons_of_mem _ (List.mem_map_of_mem hentry)

/-- Every style that belongs to a label has visible closing markers. -/
theorem closesVisibly_ofLabel (label : String) : (ofLabel label).ClosesVisibly := by
  have hstyles : ∀ style ∈ cLike :: families.map Prod.snd, style.ClosesVisibly := by decide
  exact hstyles _ (ofLabel_mem label)

/-- Only comments of the style are left open. -/
theorem LeavesOpen.exists_pair {style : Style} {line closeMark : List Char}
    (leaves : style.LeavesOpen line closeMark) : ∃ openMark, (openMark, closeMark) ∈ style.block := by
  obtain ⟨earlier, openMark, later, split, -⟩ := leaves
  exact ⟨openMark, by simp [split]⟩

end Style

/-- The comparison of first places decides whether the comment stays open. -/
theorem staysOpen_iff {openMark closeMark line : List Char} (occurs : openMark <:+: line) :
    staysOpen openMark closeMark line ↔ ¬ closeMark <:+: line ∨ ∃ closeAt openAt,
      Text.FirstAt closeMark line closeAt ∧ Text.FirstAt openMark line openAt ∧ closeAt < openAt := by
  obtain ⟨openAt, hopen⟩ := Option.isSome_iff_exists.1 (Text.firstAt?_isSome_iff.2 occurs)
  unfold staysOpen
  cases hclose : Text.firstAt? closeMark line with
  | none => simp [Text.firstAt?_eq_none_iff.1 hclose]
  | some closeAt =>
    have hmem : closeMark <:+: line := Text.firstAt?_isSome_iff.1 (by simp [hclose])
    simp [hopen, hmem, ← Text.firstAt?_eq_some_iff, hclose]

/-- A line leaves a comment open exactly if the pair that is found first does. -/
theorem Style.leavesOpen_iff {style : Style} {line closeMark : List Char} :
    style.LeavesOpen line closeMark ↔ ∃ openMark,
      style.block.find? (fun pair => Text.occursIn pair.1 line) = some (openMark, closeMark) ∧
        staysOpen openMark closeMark line := by
  simp only [List.find?_eq_some_iff_append]
  constructor
  · rintro ⟨earlier, openMark, later, split, hfirst, occurs, stays⟩
    refine ⟨openMark, ⟨Text.occursIn_iff.2 occurs, earlier, later, split, fun pair hpair => ?_⟩,
      (staysOpen_iff occurs).2 stays⟩
    simpa using hfirst pair hpair
  · rintro ⟨openMark, ⟨occurs, earlier, later, split, hfirst⟩, stays⟩
    rw [Text.occursIn_iff] at occurs
    refine ⟨earlier, openMark, later, split, fun pair hpair => ?_, occurs,
      (staysOpen_iff occurs).1 stays⟩
    simpa using hfirst pair hpair

section StepLine

variable {style : Style} {span : Span} {line : List Char}

/-- A line without characters is blank and changes nothing. -/
theorem stepLine_nil : stepLine style span [] = (.blank, span) := rfl

/-- Inside a comment every line is a comment, and its closing marker ends it. -/
theorem stepLine_inside {closeMark : List Char} (visible : line ≠ []) :
    stepLine style (some closeMark) line =
      (.comment, if Text.occursIn closeMark line then none else some closeMark) := by
  simp [stepLine, visible]

/-- Outside a comment a line that begins with a single-line marker is a comment and opens nothing. -/
theorem stepLine_single (visible : line ≠ []) (single : style.BeginsSingle line) :
    stepLine style none line = (.comment, none) := by
  have hany : style.single.any (·.isPrefixOf line) := by
    simpa [Style.BeginsSingle, List.isPrefixOf_iff_prefix] using single
  simp [stepLine, visible, hany]

/-- A line without any marker is code. -/
theorem stepLine_plain (visible : line ≠ []) (notSingle : ¬ style.BeginsSingle line)
    (noOpening : ¬ style.HasOpening line) : stepLine style none line = (.code, none) := by
  have hany : style.single.any (·.isPrefixOf line) = false := by
    simpa [Style.BeginsSingle, List.isPrefixOf_iff_prefix] using notSingle
  have hfind : style.block.find? (fun pair => Text.occursIn pair.1 line) = none := by
    simpa [Style.HasOpening] using noOpening
  simp [stepLine, visible, hany, hfind]

/-- A line with an opening marker is a comment, and the first pair whose opening marker occurs decides
whether the comment stays open. -/
theorem stepLine_opening (visible : line ≠ []) (notSingle : ¬ style.BeginsSingle line)
    (opening : style.HasOpening line) :
    (stepLine style none line).1 = .comment ∧
      ∀ closeMark, (stepLine style none line).2 = some closeMark ↔ style.LeavesOpen line closeMark := by
  have hany : style.single.any (·.isPrefixOf line) = false := by
    simpa [Style.BeginsSingle, List.isPrefixOf_iff_prefix] using notSingle
  obtain ⟨⟨openMark, closeMark⟩, hfind⟩ :
      ∃ pair, style.block.find? (fun pair => Text.occursIn pair.1 line) = some pair := by
    simpa [← Option.isSome_iff_exists, List.find?_isSome, Style.HasOpening] using opening
  have hstep : stepLine style none line =
      (.comment, if staysOpen openMark closeMark line then some closeMark else none) := by
    simp [stepLine, visible, hany, hfind]
  rw [hstep]
  refine ⟨rfl, fun other => ?_⟩
  rw [Style.leavesOpen_iff, hfind]
  by_cases stays : staysOpen openMark closeMark line
  · simp only [stays, if_true, Option.some.injEq, Prod.mk.injEq]
    constructor
    · rintro rfl
      exact ⟨openMark, ⟨rfl, rfl⟩, stays⟩
    · rintro ⟨_, ⟨-, rfl⟩, -⟩
      rfl
  · simp only [stays, Bool.false_eq_true, if_false, reduceCtorEq, false_iff, Option.some.injEq,
      Prod.mk.injEq]
    rintro ⟨_, ⟨rfl, rfl⟩, stays'⟩
    exact stays stays'

end StepLine

/-! ### Lines before a line -/

mutual

/-- Line `i` is inside a comment: a line before it opens one, and no line in between closes it. -/
def Inside (style : Style) (lines : List (List Char)) (i : Nat) : Prop :=
  ∃ j, ∃ _ : j < i, ∃ closeMark, Opens style lines j closeMark ∧
    ∀ k, j < k → k < i → ¬ closeMark <:+: lines.getD k []
termination_by 2 * i

/-- Line `j` opens a comment that ends with the given marker: it has characters, is not inside a comment
itself, does not begin with a single-line marker, and leaves the comment open. -/
def Opens (style : Style) (lines : List (List Char)) (j : Nat) (closeMark : List Char) : Prop :=
  lines.getD j [] ≠ [] ∧ ¬ Inside style lines j ∧ ¬ style.BeginsSingle (lines.getD j []) ∧
    style.LeavesOpen (lines.getD j []) closeMark
termination_by 2 * j + 1

end

/-- Line `i` is blank. -/
def IsBlank (lines : List (List Char)) (i : Nat) : Prop :=
  lines.getD i [] = []

/-- Line `i` is a comment: it has characters, and it is inside a comment or has a marker. -/
def IsComment (style : Style) (lines : List (List Char)) (i : Nat) : Prop :=
  ¬ IsBlank lines i ∧
    (Inside style lines i ∨ style.BeginsSingle (lines.getD i []) ∨ style.HasOpening (lines.getD i []))

/-- Line `i` is code: it is neither blank nor a comment. -/
def IsCode (style : Style) (lines : List (List Char)) (i : Nat) : Prop :=
  ¬ IsBlank lines i ∧ ¬ IsComment style lines i

/-! ### The open comment -/

/-- The comment that ends with the given marker is open in front of line `i`. -/
def OpenBefore (style : Style) (lines : List (List Char)) (i : Nat) (closeMark : List Char) : Prop :=
  ∃ j < i, Opens style lines j closeMark ∧ ∀ k, j < k → k < i → ¬ closeMark <:+: lines.getD k []

section OpenBefore

variable {style : Style} {lines : List (List Char)} {i : Nat} {closeMark : List Char}

/-- A line is inside a comment if some comment is open in front of it. -/
theorem inside_iff : Inside style lines i ↔ ∃ closeMark, OpenBefore style lines i closeMark := by
  rw [Inside]
  constructor
  · rintro ⟨j, hlt, closeMark, opens, between⟩
    exact ⟨closeMark, j, hlt, opens, between⟩
  · rintro ⟨closeMark, j, hlt, opens, between⟩
    exact ⟨j, hlt, closeMark, opens, between⟩

theorem not_openBefore_zero : ¬ OpenBefore style lines 0 closeMark :=
  fun ⟨j, hlt, _⟩ => Nat.not_lt_zero j hlt

/-- A comment that is open behind a line was open in front of it and is not closed by it, or is opened
by it. -/
theorem openBefore_succ_iff : OpenBefore style lines (i + 1) closeMark ↔
    (OpenBefore style lines i closeMark ∧ ¬ closeMark <:+: lines.getD i []) ∨
      Opens style lines i closeMark := by
  constructor
  · rintro ⟨j, hlt, opens, between⟩
    rcases Nat.lt_succ_iff_lt_or_eq.1 hlt with hji | rfl
    · exact Or.inl ⟨⟨j, hji, opens, fun k hjk hki => between k hjk (by omega)⟩,
        between i hji (Nat.lt_succ_self i)⟩
    · exact Or.inr opens
  · rintro (⟨⟨j, hji, opens, between⟩, notHere⟩ | opens)
    · refine ⟨j, by omega, opens, fun k hjk hki => ?_⟩
      rcases Nat.lt_succ_iff_lt_or_eq.1 hki with hlt | rfl
      · exact between k hjk hlt
      · exact notHere
    · exact ⟨i, Nat.lt_succ_self i, opens, fun k hik hki => by omega⟩

/-- An open comment ends with the closing marker of a pair of the language. -/
theorem OpenBefore.exists_pair (isOpen : OpenBefore style lines i closeMark) :
    ∃ openMark, (openMark, closeMark) ∈ style.block := by
  obtain ⟨j, -, opens, -⟩ := isOpen
  rw [Opens] at opens
  exact opens.2.2.2.exists_pair

/-- If no pair closes with an empty marker, no open comment does. -/
theorem closeMark_ne_nil_of_openBefore (visible : style.ClosesVisibly)
    (isOpen : OpenBefore style lines i closeMark) : closeMark ≠ [] := by
  obtain ⟨openMark, listed⟩ := isOpen.exists_pair
  exact visible _ listed

end OpenBefore

/-! ### Reading line by line -/

/-- Line `i` is of the given kind. -/
def HasKind (style : Style) (lines : List (List Char)) (i : Nat) : LineKind → Prop
  | .code => IsCode style lines i
  | .comment => IsComment style lines i
  | .blank => IsBlank lines i

/-- A line has one kind only. -/
theorem hasKind_unique {style : Style} {lines : List (List Char)} {i : Nat} {kind other : LineKind}
    (hkind : HasKind style lines i kind) (hother : HasKind style lines i other) : kind = other := by
  cases kind with
  | code =>
    cases other with
    | code => rfl
    | comment => exact absurd hother hkind.2
    | blank => exact absurd hother hkind.1
  | comment =>
    cases other with
    | code => exact absurd hkind hother.2
    | comment => rfl
    | blank => exact absurd hother hkind.1
  | blank =>
    cases other with
    | code => exact absurd hkind hother.1
    | comment => exact absurd hkind hother.1
    | blank => rfl

/-- If the span is the comment that is open in front of a line, then the step over this line finds its
kind and the comment that is open behind it. -/
theorem stepLine_correct {style : Style} (visible : style.ClosesVisibly) {lines : List (List Char)}
    {i : Nat} {span : Span} (hspan : ∀ closeMark, span = some closeMark ↔ OpenBefore style lines i closeMark) :
    HasKind style lines i (stepLine style span (lines.getD i [])).1 ∧
      ∀ closeMark, (stepLine style span (lines.getD i [])).2 = some closeMark ↔
        OpenBefore style lines (i + 1) closeMark := by
  have hinside : Inside style lines i ↔ span ≠ none := by
    rw [inside_iff, Option.ne_none_iff_exists']
    exact exists_congr fun closeMark => (hspan closeMark).symm
  have hopens : ∀ closeMark, Opens style lines i closeMark ↔ lines.getD i [] ≠ [] ∧ span = none ∧
      ¬ style.BeginsSingle (lines.getD i []) ∧ style.LeavesOpen (lines.getD i []) closeMark := by
    intro closeMark
    rw [Opens, hinside, not_ne_iff]
  simp only [openBefore_succ_iff, ← hspan, hopens]
  generalize hline : lines.getD i [] = line
  by_cases hblank : line = []
  · -- A closing marker has characters, so a blank line closes nothing.
    subst hblank
    rw [stepLine_nil]
    refine ⟨hline, fun closeMark => ?_⟩
    simp only [ne_eq, not_true_eq_false, false_and, or_false, List.infix_nil, iff_self_and]
    intro isOpen
    exact closeMark_ne_nil_of_openBefore visible ((hspan closeMark).1 isOpen)
  · have hnotBlank : ¬ IsBlank lines i := by rwa [IsBlank, hline]
    cases span with
    | some openMark =>
      rw [stepLine_inside hblank]
      refine ⟨⟨hnotBlank, Or.inl (hinside.2 (by simp))⟩, fun closeMark => ?_⟩
      simp only [Text.occursIn_iff, reduceCtorEq, false_and, and_false, or_false]
      by_cases closes : openMark <:+: line
      · simp only [closes, if_true, reduceCtorEq, Option.some.injEq, false_iff, not_and, not_not]
        rintro rfl
        exact closes
      · simp only [closes, if_false, Option.some.injEq, iff_self_and]
        rintro rfl
        exact closes
    | none =>
      have houtside : ¬ Inside style lines i := by simp [hinside]
      simp only [reduceCtorEq, false_and, false_or, ne_eq, hblank, not_false_eq_true, true_and]
      by_cases single : style.BeginsSingle line
      · rw [stepLine_single hblank single]
        refine ⟨⟨hnotBlank, Or.inr (Or.inl (hline ▸ single))⟩, fun closeMark => ?_⟩
        simp [single]
      · -- Only here the line can open a comment: it has characters, is outside and begins no single-line one.
        by_cases opening : style.HasOpening line
        · obtain ⟨hkind, hnext⟩ := stepLine_opening hblank single opening
          rw [hkind]
          refine ⟨⟨hnotBlank, Or.inr (Or.inr (hline ▸ opening))⟩, fun closeMark => ?_⟩
          simp [hnext, single]
        · rw [stepLine_plain hblank single opening]
          have hnotComment : ¬ IsComment style lines i := by
            rintro ⟨-, inside | isSingle | hasOpening⟩
            · exact houtside inside
            · exact single (hline ▸ isSingle)
            · exact opening (hline ▸ hasOpening)
          refine ⟨⟨hnotBlank, hnotComment⟩, fun closeMark => ?_⟩
          simp only [reduceCtorEq, false_iff, not_and]
          rintro - ⟨earlier, openMark, later, split, -, occurs, -⟩
          exact opening ⟨(openMark, closeMark), by simp [split], occurs⟩

open scoped Classical in
/-- The reading is what it should be after the first `n` lines. -/
structure Follows (style : Style) (lines : List (List Char)) (n : Nat) (reading : Reading) : Prop where
  span_iff : ∀ closeMark, reading.span = some closeMark ↔ OpenBefore style lines n closeMark
  code_eq : reading.counts.code = Nat.count (IsCode style lines) n
  comments_eq : reading.counts.comments = Nat.count (IsComment style lines) n
  blank_eq : reading.counts.blank = Nat.count (IsBlank lines) n

namespace Follows

variable {style : Style} {lines : List (List Char)} {n : Nat} {reading : Reading}

/-- Before the first line, nothing is counted and nothing is open. -/
theorem start : Follows style lines 0 {} where
  span_iff closeMark := by simp [not_openBefore_zero]
  code_eq := by simp
  comments_eq := by simp
  blank_eq := by simp

/-- One more line. -/
theorem next (visible : style.ClosesVisibly) (follows : Follows style lines n reading)
    {text : List Char} (here : lines.getD n [] = Text.trimLine text) :
    Follows style lines (n + 1) (reading.next style text) := by
  obtain ⟨hkind, hspan⟩ := stepLine_correct visible follows.span_iff
  rw [here] at hkind hspan
  unfold Reading.next
  generalize stepLine style reading.span (Text.trimLine text) = step at hkind hspan
  obtain ⟨kind, span⟩ := step
  have hiff : ∀ other, HasKind style lines n other ↔ kind = other := fun other =>
    ⟨hasKind_unique hkind, fun same => same ▸ hkind⟩
  have hcode : IsCode style lines n ↔ kind = .code := hiff .code
  have hcomment : IsComment style lines n ↔ kind = .comment := hiff .comment
  have hblank : IsBlank lines n ↔ kind = .blank := hiff .blank
  refine ⟨hspan, ?_, ?_, ?_⟩
  · cases kind <;> simp [LineCounts.tally, Nat.count_succ, hcode, follows.code_eq]
  · cases kind <;> simp [LineCounts.tally, Nat.count_succ, hcomment, follows.comments_eq]
  · cases kind <;> simp [LineCounts.tally, Nat.count_succ, hblank, follows.blank_eq]

end Follows

/-- The reading of a text has met every line of it. -/
theorem follows_read {style : Style} (visible : style.ClosesVisibly) (text : List Char) :
    Follows style ((Text.lines text).map Text.trimLine) (Text.lines text).length (read style text) := by
  have hprefix : ∀ n ≤ (Text.lines text).length,
      Follows style ((Text.lines text).map Text.trimLine) n
        (((Text.lines text).take n).foldl (Reading.next style) {}) := by
    intro n
    induction n with
    | zero => exact fun _ => Follows.start
    | succ n ih =>
      intro hle
      have hlt : n < (Text.lines text).length := hle
      rw [List.take_succ_eq_append_getElem hlt, List.foldl_append]
      exact (ih hlt.le).next visible (by simp [hlt])
  simpa [read] using hprefix _ le_rfl

/-! ### The counts -/

namespace LineCounts

/-- A line is counted under one kind. -/
theorem tally_sum (counts : LineCounts) (kind : LineKind) :
    (counts.tally kind).code + (counts.tally kind).comments + (counts.tally kind).blank =
      counts.code + counts.comments + counts.blank + 1 := by
  cases kind <;> simp only [tally] <;> omega

/-- And it is counted once in the total. -/
@[simp] theorem tally_total (counts : LineCounts) (kind : LineKind) :
    (counts.tally kind).total = counts.total + 1 := by
  cases kind <;> rfl

end LineCounts

/-- A reading counts each line once, under its kind and in the total. -/
theorem foldl_next_counts (style : Style) (lines : List (List Char)) (reading : Reading) :
    let counts := (lines.foldl (Reading.next style) reading).counts
    counts.code + counts.comments + counts.blank =
        reading.counts.code + reading.counts.comments + reading.counts.blank + lines.length ∧
      counts.total = reading.counts.total + lines.length := by
  induction lines generalizing reading with
  | nil => exact ⟨rfl, rfl⟩
  | cons line lines ih =>
    obtain ⟨hsum, htotal⟩ := ih (reading.next style line)
    have hstep : (reading.next style line).counts =
        reading.counts.tally (stepLine style reading.span (Text.trimLine line)).1 := rfl
    rw [hstep, LineCounts.tally_sum] at hsum
    rw [hstep, LineCounts.tally_total] at htotal
    rw [List.foldl_cons, List.length_cons]
    exact ⟨by omega, by omega⟩

/-- The lines of all kinds together are all lines. -/
theorem classify_sum (content label : String) :
    (classify content label).code + (classify content label).comments +
      (classify content label).blank = (classify content label).total := by
  obtain ⟨hsum, htotal⟩ :=
    foldl_next_counts (Style.ofLabel label) (Text.lines content.toList) {}
  rw [classify, read, hsum, htotal]
  simp

/-- Classifying a text counts the same lines as cutting it does. -/
theorem classify_total (content label : String) :
    (classify content label).total = Text.lineCount content := by
  obtain ⟨-, htotal⟩ := foldl_next_counts (Style.ofLabel label) (Text.lines content.toList) {}
  rw [classify, read, htotal, Text.lineCount, Nat.zero_add]

/-- The lines of a text between its line feeds, without blanks at the ends of each. -/
def trimmedLines (content : String) : List (List Char) :=
  (content.toList.splitOn '\n').map Text.trimLine

/-- Lines are cut at line feeds and then trimmed, which is what reading a content does. -/
theorem map_trimLine_lines (content : String) :
    (Text.lines content.toList).map Text.trimLine = trimmedLines content := by
  rw [Text.lines_eq_splitOn, trimmedLines]

open scoped Classical in
/-- The counts of a text are the numbers of its lines of each kind, and the lines are one more than the
line feeds. -/
theorem classify_eq_count (content label : String) :
    (classify content label).code =
        Nat.count (IsCode (Style.ofLabel label) (trimmedLines content)) (trimmedLines content).length ∧
      (classify content label).comments =
        Nat.count (IsComment (Style.ofLabel label) (trimmedLines content))
          (trimmedLines content).length ∧
      (classify content label).blank =
        Nat.count (IsBlank (trimmedLines content)) (trimmedLines content).length ∧
      (classify content label).code + (classify content label).comments +
        (classify content label).blank = (classify content label).total ∧
      (classify content label).total = 1 + content.toList.count '\n' := by
  have hfollows := follows_read (Style.closesVisibly_ofLabel label) content.toList
  have hlength : (Text.lines content.toList).length = (trimmedLines content).length := by
    rw [← map_trimLine_lines, List.length_map]
  rw [map_trimLine_lines, hlength] at hfollows
  refine ⟨hfollows.code_eq, hfollows.comments_eq, hfollows.blank_eq, classify_sum content label, ?_⟩
  exact (classify_total content label).trans (Text.length_lines content.toList)

/-- A single-line marker wins over an opening marker that begins with it, so nothing is opened here. -/
example : classify "--[[\nx = 1\n]]" "Lua" = ⟨2, 1, 0, 3⟩ := by decide

end CodeCensus.Comment
