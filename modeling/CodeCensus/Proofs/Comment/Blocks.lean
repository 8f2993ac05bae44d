import CodeCensus.Proofs.Comment.Kinds
import CodeCensus.Proofs.Margins

/-!
# Enclosed comments over several lines

An opening marker that stands alone on a line opens a comment, and every line up to the closing marker is
then a comment (`kindsFrom_inside`).  This needs markers that differ.  Whether a comment stays open is
read off the first places of its two markers on the line, and where both are the same text, as the triple
quotes of Python are, these places are the same and the comment is closed on the spot.  In such a style no
line leaves anything open (`spanAfter_of_same`): the two lines with the markers are comments, and what
stands between them is judged as if they were not there (`classify_block`).
-/

namespace CodeCensus.Comment

open Text (trimLine)

/-! ### The markers of a label -/

namespace Style

instance (style : Style) (line : List Char) : Decidable (style.BeginsSingle line) :=
  inferInstanceAs (Decidable (∃ mark ∈ style.single, mark <+: line))

/-- The markers of enclosed comments have no margins. -/
theorem trimLine_mark (label : String) {pair : List Char × List Char}
    (listed : pair ∈ (ofLabel label).block) : trimLine pair.1 = pair.1 ∧ trimLine pair.2 = pair.2 := by
  have hstyles : ∀ style ∈ cLike :: families.map Prod.snd, ∀ pair ∈ style.block,
      trimLine pair.1 = pair.1 ∧ trimLine pair.2 = pair.2 := by decide
  exact hstyles _ (ofLabel_mem label) pair listed

/-- If one pair of a style has the same marker twice, all of them do. -/
theorem same_of_same (label : String) {pair other : List Char × List Char}
    (listed : pair ∈ (ofLabel label).block) (same : pair.1 = pair.2)
    (hother : other ∈ (ofLabel label).block) : other.1 = other.2 := by
  have hstyles : ∀ style ∈ cLike :: families.map Prod.snd, ∀ pair ∈ style.block, pair.1 = pair.2 →
      ∀ other ∈ style.block, other.1 = other.2 := by decide
  exact hstyles _ (ofLabel_mem label) pair listed same other hother

/-- A line with nothing but an opening marker is a comment, and it opens one unless the closing marker is
the same text. -/
theorem stepLine_openMark (label : String) {pair : List Char × List Char}
    (listed : pair ∈ (ofLabel label).block) (notSingle : ¬ (ofLabel label).BeginsSingle pair.1) :
    stepLine (ofLabel label) none pair.1 =
      (.comment, if pair.1 = pair.2 then none else some pair.2) := by
  have hstyles : ∀ style ∈ cLike :: families.map Prod.snd, ∀ pair ∈ style.block,
      ¬ style.BeginsSingle pair.1 → stepLine style none pair.1 =
        (.comment, if pair.1 = pair.2 then none else some pair.2) := by decide
  exact hstyles _ (ofLabel_mem label) pair listed notSingle

end Style

/-! ### Inside a comment -/

section Inside

variable {style : Style} {closeMark : List Char} {lines : List (List Char)}

/-- Where no line is blank either, all of them are comments. -/
theorem kindsFrom_inside (style : Style) (within : ∀ line ∈ lines, line ≠ [] ∧ ¬ closeMark <:+: line) :
    kindsFrom style (some closeMark) lines = List.replicate lines.length .comment ∧
      spanAfter style (some closeMark) lines = some closeMark := by
  obtain ⟨hkinds, hspan⟩ := kindsFrom_unclosed style fun line hline => (within line hline).2
  refine ⟨?_, hspan⟩
  rw [hkinds, List.map_eq_replicate_iff]
  intro line hline
  rw [insideKind, if_neg (within line hline).1]

/-- A marker that is its own counterpart cannot stand in front of it. -/
theorem not_leavesOpen_of_same (same : ∀ pair ∈ style.block, pair.1 = pair.2) (line : List Char) :
    ¬ style.LeavesOpen line closeMark := by
  rintro ⟨earlier, openMark, later, split, -, occurs, stays⟩
  have hsame : openMark = closeMark := same (openMark, closeMark) (by simp [split])
  subst hsame
  rcases stays with absent | ⟨closeAt, openAt, hclose, hopen, hlt⟩
  · exact absent occurs
  · have hplace : some closeAt = some openAt := by
      rw [← Text.firstAt?_eq_some_iff.2 hclose, Text.firstAt?_eq_some_iff.2 hopen]
    rw [Option.some.inj hplace] at hlt
    exact Nat.lt_irrefl openAt hlt

/-- Where every marker is its own counterpart, nothing is ever open. -/
theorem spanAfter_of_same (same : ∀ pair ∈ style.block, pair.1 = pair.2) (lines : List (List Char)) :
    spanAfter style none lines = none := by
  induction lines with
  | nil => rfl
  | cons line lines ih =>
    have hstep : (stepLine style none line).2 = none := by
      by_cases nothing : line = []
      · rw [nothing, stepLine_nil]
      · by_cases single : style.BeginsSingle line
        · rw [stepLine_single nothing single]
        · by_cases opening : style.HasOpening line
          · rw [Option.eq_none_iff_forall_ne_some]
            intro closeMark hopen
            have hleaves := ((stepLine_opening nothing single opening).2 closeMark).1 hopen
            exact not_leavesOpen_of_same same line hleaves
          · rw [stepLine_plain nothing single opening]
    rw [spanAfter_cons, hstep, ih]

end Inside

/-! ### A comment from its first to its last line -/

section Block

variable {label content : String} {openMark closeMark : List Char} {before inner : List (List Char)}

/-- Between markers that differ everything is a comment. -/
theorem kindsFrom_block (listed : (openMark, closeMark) ∈ (Style.ofLabel label).block)
    (notSingle : ¬ (Style.ofLabel label).BeginsSingle openMark) (differ : openMark ≠ closeMark)
    (within : ∀ line ∈ inner, line ≠ [] ∧ ¬ closeMark <:+: line) :
    kindsFrom (Style.ofLabel label) none (openMark :: inner ++ [closeMark]) =
        List.replicate (inner.length + 2) .comment ∧
      spanAfter (Style.ofLabel label) none (openMark :: inner ++ [closeMark]) = none := by
  have hopen : stepLine (Style.ofLabel label) none openMark = (.comment, some closeMark) := by
    rw [Style.stepLine_openMark label listed notSingle, if_neg differ]
  have hclose : stepLine (Style.ofLabel label) (some closeMark) closeMark = (.comment, none) :=
    stepLine_closing (Style.closesVisibly_ofLabel label (openMark, closeMark) listed) List.infix_rfl
  obtain ⟨hkinds, hspan⟩ := kindsFrom_inside (Style.ofLabel label) within
  rw [List.cons_append, kindsFrom_cons, spanAfter_cons, hopen, kindsFrom_append, spanAfter_append,
    hkinds, hspan, kindsFrom_cons, spanAfter_cons, hclose]
  refine ⟨?_, rfl⟩
  rw [kindsFrom_nil, List.replicate_succ, List.replicate_succ']

/-- Between markers that are the same text the lines are what they are on their own. -/
theorem kindsFrom_block_of_same (listed : (openMark, closeMark) ∈ (Style.ofLabel label).block)
    (notSingle : ¬ (Style.ofLabel label).BeginsSingle openMark) (same : openMark = closeMark)
    (inner : List (List Char)) :
    kindsFrom (Style.ofLabel label) none (openMark :: inner ++ [closeMark]) =
        .comment :: kindsFrom (Style.ofLabel label) none inner ++ [.comment] ∧
      spanAfter (Style.ofLabel label) none (openMark :: inner ++ [closeMark]) = none := by
  have hmark : stepLine (Style.ofLabel label) none openMark = (.comment, none) := by
    rw [Style.stepLine_openMark label listed notSingle, if_pos same]
  have hspan : spanAfter (Style.ofLabel label) none inner = none :=
    spanAfter_of_same (fun other hother => Style.same_of_same label listed same hother) inner
  rw [← same, List.cons_append, kindsFrom_cons, spanAfter_cons, hmark, kindsFrom_append,
    spanAfter_append, hspan, kindsFrom_cons, spanAfter_cons, hmark]
  exact ⟨rfl, rfl⟩

/-- Without their margins the two lines with the markers are the markers. -/
theorem map_trimLine_block (listed : (openMark, closeMark) ∈ (Style.ofLabel label).block) :
    (openMark :: inner ++ [closeMark]).map trimLine =
      openMark :: inner.map trimLine ++ [closeMark] := by
  have hmarks : trimLine openMark = openMark ∧ trimLine closeMark = closeMark :=
    Style.trimLine_mark label listed
  rw [List.map_append, List.map_cons, List.map_cons, List.map_nil, hmarks.1, hmarks.2]

/-- Between markers that differ the lines are read as comments. -/
theorem readLines_block (listed : (openMark, closeMark) ∈ (Style.ofLabel label).block)
    (notSingle : ¬ (Style.ofLabel label).BeginsSingle openMark) (differ : openMark ≠ closeMark)
    (within : ∀ line ∈ inner, trimLine line ≠ [] ∧ ¬ closeMark <:+: line) :
    readLines (Style.ofLabel label) (openMark :: inner ++ [closeMark]) =
      ⟨none, ⟨0, inner.length + 2, 0, inner.length + 2⟩⟩ := by
  have hwithin : ∀ line ∈ inner.map trimLine, line ≠ [] ∧ ¬ closeMark <:+: line := by
    intro line hline
    obtain ⟨raw, hraw, rfl⟩ := List.mem_map.1 hline
    obtain ⟨hseen, hopen⟩ := within raw hraw
    exact ⟨hseen, fun occurs => hopen (occurs.trans (Text.trimLine_infix_self raw))⟩
  have hcounts : LineCounts.ofKinds (List.replicate (inner.length + 2) .comment) =
      ⟨0, inner.length + 2, 0, inner.length + 2⟩ := by
    simp [LineCounts.ofKinds, List.count_replicate]
  obtain ⟨hkinds, hspan⟩ := kindsFrom_block listed notSingle differ hwithin
  rw [readLines_eq, map_trimLine_block listed, hkinds, hspan, List.length_map, hcounts]

/-- Between markers that are the same text they are read as if they stood alone. -/
theorem readLines_block_of_same (listed : (openMark, closeMark) ∈ (Style.ofLabel label).block)
    (notSingle : ¬ (Style.ofLabel label).BeginsSingle openMark) (same : openMark = closeMark)
    (inner : List (List Char)) :
    readLines (Style.ofLabel label) (openMark :: inner ++ [closeMark]) =
      ⟨none, (readLines (Style.ofLabel label) inner).counts + ⟨0, 2, 0, 2⟩⟩ := by
  have hcounts : ∀ kinds : List LineKind, LineCounts.ofKinds (.comment :: kinds ++ [.comment]) =
      LineCounts.ofKinds kinds + ⟨0, 2, 0, 2⟩ := by
    intro kinds
    simp [LineCounts.ofKinds, LineCounts.add_eq]
  obtain ⟨hkinds, hspan⟩ := kindsFrom_block_of_same listed notSingle same (inner.map trimLine)
  rw [readLines_eq, map_trimLine_block listed, hkinds, hspan, hcounts, readLines_eq]

/-- The lines from an opening marker to the next closing marker are comments, and nothing is open behind
them, so that further lines count for what they count for on their own.  If the two markers are the same
text, only the two lines with the markers are comments: the lines between them, too, count for what they
count for on their own. -/
theorem classify_block (listed : (openMark, closeMark) ∈ (Style.ofLabel label).block)
    (notSingle : ¬ (Style.ofLabel label).BeginsSingle openMark)
    (outside : (readLines (Style.ofLabel label) before).span = none)
    (within : ∀ line ∈ inner, trimLine line ≠ [] ∧ ¬ closeMark <:+: line)
    (cut : Text.lines content.toList = before ++ (openMark :: inner ++ [closeMark])) :
    (read (Style.ofLabel label) content.toList).span = none ∧
      (openMark ≠ closeMark → classify content label =
        (readLines (Style.ofLabel label) before).counts +
          ⟨0, inner.length + 2, 0, inner.length + 2⟩) ∧
      (openMark = closeMark → classify content label =
        (readLines (Style.ofLabel label) before).counts +
          ((readLines (Style.ofLabel label) inner).counts + ⟨0, 2, 0, 2⟩)) ∧
      ∀ (longer : String) (behind : List (List Char)),
        Text.lines longer.toList = Text.lines content.toList ++ behind →
        classify longer label =
          classify content label + (readLines (Style.ofLabel label) behind).counts := by
  have hread : read (Style.ofLabel label) content.toList =
      ⟨(readLines (Style.ofLabel label) (openMark :: inner ++ [closeMark])).span,
        (readLines (Style.ofLabel label) before).counts +
          (readLines (Style.ofLabel label) (openMark :: inner ++ [closeMark])).counts⟩ := by
    rw [read_eq_readLines, cut, readLines_append outside]
  have hspan : (read (Style.ofLabel label) content.toList).span = none := by
    by_cases same : openMark = closeMark
    · rw [hread, readLines_block_of_same listed notSingle same]
    · rw [hread, readLines_block listed notSingle same within]
  refine ⟨hspan, fun differ => ?_, fun same => ?_, fun longer behind split =>
    classify_lines_append hspan split⟩
  · rw [classify, hread, readLines_block listed notSingle differ within]
  · rw [classify, hread, readLines_block_of_same listed notSingle same]

end Block

/-- A comment of three lines behind a line of code. -/
theorem classify_block_slashes : classify "x;\n/*\n* y\n*/" "Rust" = ⟨1, 3, 0, 4⟩ := by
  have hblock := @classify_block "Rust" "x;\n/*\n* y\n*/" ['/', '*'] ['*', '/'] [['x', ';']]
    [['*', ' ', 'y']] (by decide) (by decide) (by decide) (by decide) (by decide)
  rw [hblock.2.1 (by decide)]
  decide

/-- Between triple quotes a line is still counted as code. -/
theorem not_forall_classify_block : ¬ ∀ (label content : String) (openMark closeMark : List Char)
    (before inner : List (List Char)), (openMark, closeMark) ∈ (Style.ofLabel label).block →
    ¬ (Style.ofLabel label).BeginsSingle openMark →
    (readLines (Style.ofLabel label) before).span = none →
    (∀ line ∈ inner, trimLine line ≠ [] ∧ ¬ closeMark <:+: line) →
    Text.lines content.toList = before ++ (openMark :: inner ++ [closeMark]) →
    (read (Style.ofLabel label) content.toList).span = none ∧
      classify content label = (readLines (Style.ofLabel label) before).counts +
        ⟨0, inner.length + 2, 0, inner.length + 2⟩ := by
  intro all
  have hcounts := (all "Python" "\"\"\"\nx = 1\n\"\"\"" ['"', '"', '"'] ['"', '"', '"'] []
    [['x', ' ', '=', ' ', '1']] (by decide) (by decide) (by decide) (by decide) (by decide)).2
  have hcode : classify "\"\"\"\nx = 1\n\"\"\"" "Python" = ⟨1, 2, 0, 3⟩ := by decide
  rw [hcode] at hcounts
  exact absurd hcounts (by decide)

end CodeCensus.Comment
