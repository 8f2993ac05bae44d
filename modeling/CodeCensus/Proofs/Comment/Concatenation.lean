import CodeCensus.Proofs.Comment.Kinds
import CodeCensus.Proofs.Margins

/-!
# One text behind another

Two texts with a line feed between them have the lines of the first one and then those of the second.  All
that the first one has to do with the second is the comment that it leaves open, if it does
(`read_append_feed`).  Where nothing is left open, the second text counts for what it counts for on its own.
Otherwise its lines are inside the comment, up to the first of them with the closing marker; and what
stands on that line behind the marker or in front of it opens nothing, so that the lines below are read
from outside any comment again (`foldl_next_closed`).
-/

namespace CodeCensus.Comment

open Text (isMargin trimLine)

/-! ### Closing markers -/

/-- No character of a closing marker is a margin character. -/
theorem Style.closeMark_kept (label : String) {pair : List Char × List Char}
    (listed : pair ∈ (ofLabel label).block) : ∀ c ∈ pair.2, ¬ isMargin c := by
  have hstyles : ∀ style ∈ cLike :: families.map Prod.snd, ∀ pair ∈ style.block,
      pair.2.all (!isMargin ·) := by decide
  have hkept := List.all_eq_true.1 (hstyles _ (ofLabel_mem label) pair listed)
  exact fun c hc => by simpa using hkept c hc

/-- What a text leaves open is a comment of its style. -/
theorem exists_pair_of_span {label : String} {text closeMark : List Char}
    (isOpen : (read (Style.ofLabel label) text).span = some closeMark) :
    ∃ openMark, (openMark, closeMark) ∈ (Style.ofLabel label).block := by
  have hfollows := follows_read (Style.closesVisibly_ofLabel label) text
  exact ((hfollows.span_iff closeMark).1 isOpen).exists_pair

/-- Such a marker occurs on a line exactly if it occurs there without the margins. -/
theorem closeMark_infix_trimLine_iff {label : String} {text closeMark : List Char}
    (isOpen : (read (Style.ofLabel label) text).span = some closeMark) (line : List Char) :
    closeMark <:+: trimLine line ↔ closeMark <:+: line := by
  obtain ⟨openMark, listed⟩ := exists_pair_of_span isOpen
  exact Text.infix_strip_iff (Style.closesVisibly_ofLabel label _ listed)
    (Style.closeMark_kept label listed) line

/-- A line that closes a comment has something on it. -/
theorem trimLine_ne_nil_of_closes {label : String} {text closeMark line : List Char}
    (isOpen : (read (Style.ofLabel label) text).span = some closeMark) (closes : closeMark <:+: line) :
    trimLine line ≠ [] := by
  intro nothing
  have hempty : closeMark <:+: [] := nothing ▸ (closeMark_infix_trimLine_iff isOpen line).2 closes
  obtain ⟨openMark, listed⟩ := exists_pair_of_span isOpen
  exact Style.closesVisibly_ofLabel label _ listed (List.infix_nil.1 hempty)

/-! ### Reading on -/

/-- What some lines count for if all of them are inside a comment. -/
def LineCounts.ofInside (lines : List (List Char)) : LineCounts :=
  ⟨0, lines.countP (trimLine · ≠ []), lines.countP (trimLine · = []), lines.length⟩

/-- Lines inside a comment count as comments, or as blank if nothing is on them. -/
theorem LineCounts.ofKinds_map_insideKind (lines : List (List Char)) :
    ofKinds ((lines.map trimLine).map insideKind) = ofInside lines := by
  have hcount : ∀ kind : LineKind, ((lines.map trimLine).map insideKind).count kind =
      lines.countP fun line => insideKind (trimLine line) = kind := by
    intro kind
    rw [List.map_map, List.count, List.countP_map]
    exact List.countP_congr fun line _ => by simp
  rw [ofKinds, hcount, hcount, hcount, List.length_map, List.length_map, ofInside]
  simp

section Reading

variable {style : Style} {reading : Reading} {closeMark line : List Char}
  {lines inner behind : List (List Char)}

/-- A line feed ends a line, and reading goes on with the next one. -/
theorem read_append_feed (style : Style) (front behind : List Char) :
    read style (front ++ '\n' :: behind) =
      (Text.lines behind).foldl (Reading.next style) (read style front) := by
  rw [read, Text.lines_append_feed, List.foldl_append, read]

/-- Inside a comment, lines count as comments or as blank, and stay inside. -/
theorem foldl_next_unclosed (isOpen : reading.span = some closeMark)
    (within : ∀ line ∈ lines, ¬ closeMark <:+: line) :
    lines.foldl (Reading.next style) reading =
      ⟨some closeMark, reading.counts + .ofInside lines⟩ := by
  have hwithin : ∀ line ∈ lines.map trimLine, ¬ closeMark <:+: line := by
    intro line hline
    obtain ⟨raw, hraw, rfl⟩ := List.mem_map.1 hline
    exact fun occurs => within raw hraw (occurs.trans (Text.trimLine_infix_self raw))
  obtain ⟨hkinds, hspan⟩ := kindsFrom_unclosed style hwithin
  rw [foldl_next, isOpen, hkinds, hspan, LineCounts.ofKinds_map_insideKind]

/-- Up to the line with the closing marker they are inside the comment, and behind it outside. -/
theorem foldl_next_closed (isOpen : reading.span = some closeMark)
    (within : ∀ line ∈ inner, ¬ closeMark <:+: line) (visible : trimLine line ≠ [])
    (closes : closeMark <:+: trimLine line) :
    (inner ++ line :: behind).foldl (Reading.next style) reading =
      ⟨(readLines style behind).span, reading.counts +
        (.ofInside inner + ⟨0, 1, 0, 1⟩ + (readLines style behind).counts)⟩ := by
  have hstep : ∀ counts : LineCounts, Reading.next style ⟨some closeMark, counts⟩ line =
      ⟨none, counts + ⟨0, 1, 0, 1⟩⟩ := by
    intro counts
    rw [Reading.next, stepLine_closing visible closes]
    rfl
  rw [List.foldl_append, List.foldl_cons, foldl_next_unclosed isOpen within, hstep, foldl_next_outside rfl]
  simp only [LineCounts.add_assoc]

end Reading

/-! ### Classification -/

/-- The longer text is read on from where the reading of the first text ends. -/
theorem classify_append_eq (label a b : String) : classify (a ++ "\n" ++ b) label =
    ((Text.lines b.toList).foldl (Reading.next (Style.ofLabel label))
      (read (Style.ofLabel label) a.toList)).counts := by
  have hlist : (a ++ "\n" ++ b).toList = a.toList ++ '\n' :: b.toList := by simp
  rw [classify, hlist, read_append_feed]

/-- **One text behind another.**  Where the first text leaves nothing open, the counts add up.  Where it
leaves a comment open, the lines of the second text without the closing marker are comments or blank, the
first line with it is a comment, and the lines below that are counted from outside any comment.  So no
count of a text is lowered by what is put behind it. -/
theorem classify_append (label a b : String) :
    ((read (Style.ofLabel label) a.toList).span = none →
      classify (a ++ "\n" ++ b) label = classify a label + classify b label) ∧
    (∀ closeMark, (read (Style.ofLabel label) a.toList).span = some closeMark →
      ((∀ line ∈ Text.lines b.toList, ¬ closeMark <:+: line) →
        classify (a ++ "\n" ++ b) label = classify a label + .ofInside (Text.lines b.toList)) ∧
      ∀ inner last behind, Text.lines b.toList = inner ++ last :: behind →
        (∀ line ∈ inner, ¬ closeMark <:+: line) → closeMark <:+: last →
        classify (a ++ "\n" ++ b) label = classify a label +
          (.ofInside inner + ⟨0, 1, 0, 1⟩ + (readLines (Style.ofLabel label) behind).counts)) ∧
    (classify a label).code ≤ (classify (a ++ "\n" ++ b) label).code ∧
    (classify a label).comments ≤ (classify (a ++ "\n" ++ b) label).comments ∧
    (classify a label).blank ≤ (classify (a ++ "\n" ++ b) label).blank ∧
    (classify a label).total ≤ (classify (a ++ "\n" ++ b) label).total := by
  rw [classify_append_eq]
  refine ⟨?_, ?_, ?_⟩
  · intro outside
    rw [foldl_next_outside outside]
    rfl
  · intro closeMark isOpen
    refine ⟨?_, ?_⟩
    · intro within
      rw [foldl_next_unclosed isOpen within]
      rfl
    · intro inner last behind split within closes
      have hcloses : closeMark <:+: trimLine last := (closeMark_infix_trimLine_iff isOpen last).2 closes
      have hvisible : trimLine last ≠ [] := trimLine_ne_nil_of_closes isOpen closes
      rw [split, foldl_next_closed isOpen within hvisible hcloses]
      rfl
  · rw [foldl_next]
    exact ⟨Nat.le_add_right _ _, Nat.le_add_right _ _, Nat.le_add_right _ _, Nat.le_add_right _ _⟩

/-- Two comments that are left open, one of them closed on a line that would open another, and a text that
leaves nothing open. -/
theorem classify_append_reopened :
    classify "f();\n/* a" "C" + ⟨0, 1, 1, 2⟩ = classify ("f();\n/* a" ++ "\n" ++ "b // c\n") "C" ∧
      classify "f();\n/* a" "C" + (.ofInside ["b".toList, []] + ⟨0, 1, 0, 1⟩ + ⟨1, 0, 0, 1⟩) =
        classify ("f();\n/* a" ++ "\n" ++ "b\n\n c */ /* d\ng();") "C" ∧
      classify "f();" "C" + classify "/* a" "C" = classify ("f();" ++ "\n" ++ "/* a") "C" := by
  have hopen : (read (Style.ofLabel "C") "f();\n/* a".toList).span = some ['*', '/'] := by decide
  obtain ⟨-, hunclosed, -⟩ := classify_append "C" "f();\n/* a" "b // c\n"
  obtain ⟨-, hclosed, -⟩ := classify_append "C" "f();\n/* a" "b\n\n c */ /* d\ng();"
  obtain ⟨houtside, -, -⟩ := classify_append "C" "f();" "/* a"
  refine ⟨?_, ?_, ?_⟩
  · exact ((hunclosed _ hopen).1 (by decide)).symm
  · exact ((hclosed _ hopen).2 ["b".toList, []] " c */ /* d".toList ["g();".toList] (by decide)
      (by decide) (by decide)).symm
  · exact (houtside (by decide)).symm

end CodeCensus.Comment
