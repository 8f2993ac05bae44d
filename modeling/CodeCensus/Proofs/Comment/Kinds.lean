import CodeCensus.Proofs.Comment.Spans

/-!
# One line after the other

A reading carries the open comment from line to line and counts the kinds of the lines.  Here the two are
taken apart: `spanAfter` is the comment that is open behind some lines, `kindsFrom` are the kinds of these
lines, and both are computed piece by piece from the lines and from the comment that is open in front of
them.  The counts of a text are then those of its kinds (`readLines_eq`).
-/

namespace CodeCensus.Comment

/-! ### Counting kinds -/

namespace LineCounts

/-- How many lines there are of each kind. -/
def ofKinds (kinds : List LineKind) : LineCounts :=
  ⟨kinds.count .code, kinds.count .comment, kinds.count .blank, kinds.length⟩

theorem add_eq (a b : LineCounts) :
    a + b = ⟨a.code + b.code, a.comments + b.comments, a.blank + b.blank, a.total + b.total⟩ := rfl

theorem ofKinds_append (front behind : List LineKind) :
    ofKinds (front ++ behind) = ofKinds front + ofKinds behind := by
  rw [add_eq, ofKinds, List.count_append, List.count_append, List.count_append, List.length_append]
  rfl

/-- Counting one more line is adding what it counts for. -/
theorem tally_eq (counts : LineCounts) (kind : LineKind) :
    counts.tally kind = counts + ofKinds [kind] := by
  cases kind <;> rfl

protected theorem add_assoc (a b c : LineCounts) : a + b + c = a + (b + c) := by
  simp only [add_eq, Nat.add_assoc]

protected theorem zero_add (counts : LineCounts) : ({} : LineCounts) + counts = counts := by
  simp only [add_eq, Nat.zero_add]

end LineCounts

/-! ### Kinds and open comments -/

/-- The kinds of some lines without margins, where the given comment is open in front of them. -/
def kindsFrom (style : Style) : Span → List (List Char) → List LineKind
  | _, [] => []
  | span, line :: lines =>
    (stepLine style span line).1 :: kindsFrom style (stepLine style span line).2 lines

/-- The comment that is open behind some lines without margins. -/
def spanAfter (style : Style) (span : Span) (lines : List (List Char)) : Span :=
  lines.foldl (fun before line => (stepLine style before line).2) span

section Pieces

variable {style : Style} {span : Span} {line : List Char} {lines front behind : List (List Char)}

@[simp] theorem kindsFrom_nil : kindsFrom style span [] = [] := rfl

/-- The first line is read with the comment that is open, and the others with what it leaves open. -/
theorem kindsFrom_cons : kindsFrom style span (line :: lines) =
    (stepLine style span line).1 :: kindsFrom style (stepLine style span line).2 lines := rfl

@[simp] theorem spanAfter_nil : spanAfter style span [] = span := rfl

/-- What is open after some lines is what the others leave open after the first one. -/
theorem spanAfter_cons : spanAfter style span (line :: lines) =
    spanAfter style (stepLine style span line).2 lines := rfl

theorem spanAfter_append : spanAfter style span (front ++ behind) =
    spanAfter style (spanAfter style span front) behind :=
  List.foldl_append

/-- The lines behind some others are read with what these leave open. -/
theorem kindsFrom_append : kindsFrom style span (front ++ behind) =
    kindsFrom style span front ++ kindsFrom style (spanAfter style span front) behind := by
  induction front generalizing span with
  | nil => rfl
  | cons line front ih =>
    rw [List.cons_append, kindsFrom_cons, kindsFrom_cons, ih, spanAfter_cons, List.cons_append]

end Pieces

/-! ### Inside a comment -/

/-- What a line without margins counts as inside a comment. -/
def insideKind (line : List Char) : LineKind :=
  if line = [] then .blank else .comment

/-- There is no code inside a comment. -/
@[simp] theorem insideKind_ne_code (line : List Char) : insideKind line ≠ .code := by
  rw [insideKind]
  split <;> decide

/-- Inside a comment, a line with something on it is a comment. -/
@[simp] theorem insideKind_eq_comment_iff {line : List Char} :
    insideKind line = .comment ↔ line ≠ [] := by
  rw [insideKind]
  split <;> simp [*]

@[simp] theorem insideKind_eq_blank_iff {line : List Char} : insideKind line = .blank ↔ line = [] := by
  rw [insideKind]
  split <;> simp [*]

section Inside

variable {style : Style} {closeMark line : List Char} {lines : List (List Char)}

/-- A line without the closing marker stays inside the comment, whatever other markers it has. -/
theorem stepLine_unclosed (stays : ¬ closeMark <:+: line) :
    stepLine style (some closeMark) line = (insideKind line, some closeMark) := by
  by_cases nothing : line = []
  · rw [nothing, stepLine_nil, insideKind, if_pos rfl]
  · rw [stepLine_inside nothing, Text.occursIn_eq_false_iff.2 stays, insideKind, if_neg nothing]
    rfl

/-- Lines without the closing marker stay inside the comment. -/
theorem kindsFrom_unclosed (style : Style) (within : ∀ line ∈ lines, ¬ closeMark <:+: line) :
    kindsFrom style (some closeMark) lines = lines.map insideKind ∧
      spanAfter style (some closeMark) lines = some closeMark := by
  induction lines with
  | nil => exact ⟨rfl, rfl⟩
  | cons line lines ih =>
    obtain ⟨hkinds, hspan⟩ := ih fun other hother => within other (List.mem_cons_of_mem line hother)
    rw [kindsFrom_cons, spanAfter_cons, stepLine_unclosed (within line List.mem_cons_self), List.map_cons]
    exact ⟨congrArg _ hkinds, hspan⟩

/-- The line with the closing marker is the last one of the comment, whatever comes behind the marker. -/
theorem stepLine_closing (visible : line ≠ []) (closes : closeMark <:+: line) :
    stepLine style (some closeMark) line = (.comment, none) := by
  rw [stepLine_inside visible, Text.occursIn_iff.2 closes, if_pos rfl]

end Inside

/-! ### Readings -/

/-- A reading goes on from its open comment and adds to its counts. -/
theorem foldl_next (style : Style) (reading : Reading) (lines : List (List Char)) :
    lines.foldl (Reading.next style) reading =
      ⟨spanAfter style reading.span (lines.map Text.trimLine),
        reading.counts + .ofKinds (kindsFrom style reading.span (lines.map Text.trimLine))⟩ := by
  induction lines generalizing reading with
  | nil => rfl
  | cons line lines ih =>
    have hstep : reading.next style line =
        ⟨(stepLine style reading.span (Text.trimLine line)).2,
          reading.counts.tally (stepLine style reading.span (Text.trimLine line)).1⟩ := rfl
    rw [List.foldl_cons, ih, hstep, List.map_cons, spanAfter_cons, kindsFrom_cons, LineCounts.tally_eq,
      LineCounts.add_assoc, ← LineCounts.ofKinds_append, List.singleton_append]

/-- Read some lines, from outside any comment. -/
def readLines (style : Style) (lines : List (List Char)) : Reading :=
  lines.foldl (Reading.next style) {}

/-- What is open behind some lines, and their counts. -/
theorem readLines_eq (style : Style) (lines : List (List Char)) : readLines style lines =
    ⟨spanAfter style none (lines.map Text.trimLine),
      .ofKinds (kindsFrom style none (lines.map Text.trimLine))⟩ := by
  rw [readLines, foldl_next, LineCounts.zero_add]

/-- From outside any comment, lines count for what they count for on their own. -/
theorem foldl_next_outside {style : Style} {reading : Reading} {lines : List (List Char)}
    (outside : reading.span = none) : lines.foldl (Reading.next style) reading =
      ⟨(readLines style lines).span, reading.counts + (readLines style lines).counts⟩ := by
  rw [foldl_next, readLines_eq, outside]

/-- Behind lines that leave nothing open, others count for what they count for on their own. -/
theorem readLines_append {style : Style} {front behind : List (List Char)}
    (outside : (readLines style front).span = none) : readLines style (front ++ behind) =
      ⟨(readLines style behind).span, (readLines style front).counts + (readLines style behind).counts⟩ := by
  rw [readLines, List.foldl_append]
  exact foldl_next_outside outside

theorem read_eq_readLines (style : Style) (text : List Char) :
    read style text = readLines style (Text.lines text) := rfl

/-- Where a content leaves nothing open, further lines count for what they count for on their own. -/
theorem classify_lines_append {label content longer : String} {behind : List (List Char)}
    (outside : (read (Style.ofLabel label) content.toList).span = none)
    (split : Text.lines longer.toList = Text.lines content.toList ++ behind) :
    classify longer label =
      classify content label + (readLines (Style.ofLabel label) behind).counts := by
  rw [read_eq_readLines] at outside
  rw [classify, read_eq_readLines, split, readLines_append outside]
  rfl

/-- To classify a content is to count the kinds of its lines, read without margins from top to bottom. -/
theorem classify_eq (content label : String) : classify content label =
    .ofKinds (kindsFrom (Style.ofLabel label) none (trimmedLines content)) := by
  rw [classify, read_eq_readLines, readLines_eq, map_trimLine_lines]

end CodeCensus.Comment
