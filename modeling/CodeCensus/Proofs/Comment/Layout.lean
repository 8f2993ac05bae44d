import CodeCensus.Proofs.Comment.Kinds
import CodeCensus.Proofs.Margins

/-!
# Layout

The margins of lines and the blank lines between them are layout.  A line is looked at without its
margins, and a blank line leaves the open comment as it is.  So the kinds of the lines that can be seen
depend on nothing but these lines (`filter_kindsFrom`), wherever blank lines stand, inside a comment or
outside.  Two lists of lines differ in nothing but layout if one is made from the other by changing
margins and by adding and removing blank lines, and that is so exactly if the same lines can be seen in
both (`relaid_iff`).
-/

namespace CodeCensus.Comment

open Text (isMargin trimLine)

/-! ### Lines that can be seen -/

/-- The lines that have something on them, without their margins. -/
def visible (lines : List (List Char)) : List (List Char) :=
  (lines.map trimLine).filter (· ≠ [])

/-- The lines of a content that have something on them, without their margins. -/
def visibleLines (content : String) : List (List Char) :=
  visible (Text.lines content.toList)

/-- The kinds of the lines of a content that have something on them, from top to bottom. -/
def visibleKinds (content label : String) : List LineKind :=
  (kindsFrom (Style.ofLabel label) none (trimmedLines content)).filter (· ≠ .blank)

section Visible

variable {line : List Char} {lines others : List (List Char)}

/-- A blank line is not seen. -/
theorem visible_cons_of_blank (blank : ∀ c ∈ line, isMargin c) :
    visible (line :: lines) = visible lines := by
  have hnil : trimLine line = [] := Text.trimLine_eq_nil_iff.2 blank
  rw [visible, List.map_cons, hnil]
  rfl

/-- A line with something on it is seen without its margins. -/
theorem visible_cons_of_ne (seen : trimLine line ≠ []) :
    visible (line :: lines) = trimLine line :: visible lines := by
  rw [visible, List.map_cons, List.filter_cons_of_pos (by simpa using seen)]
  rfl

/-- The lines that can be seen are those that are not empty without their margins. -/
theorem visibleLines_eq_filter (content : String) :
    visibleLines content = (trimmedLines content).filter (· ≠ []) := by
  rw [visibleLines, visible, map_trimLine_lines]

end Visible

/-! ### Changes of layout -/

/-- Two lists of lines that differ in their layout only. -/
inductive Relaid : List (List Char) → List (List Char) → Prop where
  /-- Nothing differs from nothing. -/
  | nil : Relaid [] []
  /-- A line may have other margins. -/
  | margins {text before behind before' behind' : List Char} {lines lines' : List (List Char)}
      (hbefore : ∀ c ∈ before, isMargin c) (hbehind : ∀ c ∈ behind, isMargin c)
      (hbefore' : ∀ c ∈ before', isMargin c) (hbehind' : ∀ c ∈ behind', isMargin c)
      (rest : Relaid lines lines') :
      Relaid ((before ++ text ++ behind) :: lines) ((before' ++ text ++ behind') :: lines')
  /-- A blank line may be added. -/
  | insert {blank : List Char} {lines lines' : List (List Char)} (hblank : ∀ c ∈ blank, isMargin c)
      (rest : Relaid lines lines') : Relaid lines (blank :: lines')
  /-- A blank line may be removed. -/
  | remove {blank : List Char} {lines lines' : List (List Char)} (hblank : ∀ c ∈ blank, isMargin c)
      (rest : Relaid lines lines') : Relaid (blank :: lines) lines'

namespace Relaid

variable {line line' : List Char} {lines lines' : List (List Char)}

/-- Lines that are the same without their margins have other margins at most. -/
theorem of_trimLine_eq (same : trimLine line = trimLine line') (rest : Relaid lines lines') :
    Relaid (line :: lines) (line' :: lines') := by
  obtain ⟨before, behind, split, hbefore, hbehind⟩ := Text.exists_strip isMargin line
  obtain ⟨before', behind', split', hbefore', hbehind'⟩ := Text.exists_strip isMargin line'
  rw [← Text.trimLine] at split split'
  rw [split, split', same]
  exact .margins hbefore hbehind hbefore' hbehind' rest

/-- Changing the layout does not change what can be seen. -/
theorem visible_eq (relaid : Relaid lines lines') : visible lines = visible lines' := by
  induction relaid with
  | nil => rfl
  | @margins text before behind before' behind' lines lines' hbefore hbehind hbefore' hbehind' _ ih =>
    have htrim : trimLine (before ++ text ++ behind) = trimLine (before' ++ text ++ behind') := by
      rw [Text.trimLine_pad hbefore hbehind, Text.trimLine_pad hbefore' hbehind']
    have hlines : (lines.map trimLine).filter (· ≠ []) = (lines'.map trimLine).filter (· ≠ []) := ih
    rw [visible, visible, List.map_cons, List.map_cons, htrim, List.filter_cons, List.filter_cons, hlines]
  | insert hblank _ ih => rw [visible_cons_of_blank hblank, ih]
  | remove hblank _ ih => rw [visible_cons_of_blank hblank, ih]

end Relaid

/-- Two lists of lines differ in their layout only if and only if the same lines can be seen. -/
theorem relaid_iff {lines lines' : List (List Char)} :
    Relaid lines lines' ↔ visible lines = visible lines' := by
  refine ⟨Relaid.visible_eq, fun same => ?_⟩
  induction lines generalizing lines' with
  | nil =>
    -- Nothing can be seen, so every line on the other side is blank.
    induction lines' with
    | nil => exact .nil
    | cons line' lines' ih =>
      by_cases blank : ∀ c ∈ line', isMargin c
      · rw [visible_cons_of_blank blank] at same
        exact .insert blank (ih same)
      · rw [visible_cons_of_ne (mt Text.trimLine_eq_nil_iff.1 blank)] at same
        exact absurd same (List.cons_ne_nil _ _).symm
  | cons line lines ihlines =>
    by_cases blank : ∀ c ∈ line, isMargin c
    · rw [visible_cons_of_blank blank] at same
      exact .remove blank (ihlines same)
    · have hseen : trimLine line ≠ [] := mt Text.trimLine_eq_nil_iff.1 blank
      rw [visible_cons_of_ne hseen] at same
      induction lines' with
      | nil => exact absurd same (List.cons_ne_nil _ _)
      | cons line' lines' ih =>
        by_cases blank' : ∀ c ∈ line', isMargin c
        · rw [visible_cons_of_blank blank'] at same
          exact .insert blank' (ih same)
        · rw [visible_cons_of_ne (mt Text.trimLine_eq_nil_iff.1 blank')] at same
          obtain ⟨hline, hrest⟩ := List.cons.inj same
          exact .of_trimLine_eq hline (ihlines hrest)

/-- Carriage returns at the ends of lines are layout. -/
theorem relaid_returned (lines : List (List Char)) : Relaid lines (Text.returned lines) := by
  induction lines with
  | nil => exact .nil
  | cons line lines ih =>
    cases lines with
    | nil => exact .of_trimLine_eq rfl .nil
    | cons next lines => exact .of_trimLine_eq (Text.trimLine_return line).symm ih

/-! ### Layout and kinds -/

section Kinds

variable {style : Style} {span : Span} {line : List Char}

/-- A line is blank if there is nothing on it, whether a comment is open or not. -/
theorem kind_eq_blank_iff : (stepLine style span line).1 = .blank ↔ line = [] := by
  by_cases nothing : line = []
  · simp [nothing, stepLine_nil]
  · refine iff_of_false (fun blank => ?_) nothing
    cases span with
    | some closeMark =>
      rw [stepLine_inside nothing] at blank
      exact LineKind.noConfusion blank
    | none =>
      by_cases single : style.BeginsSingle line
      · rw [stepLine_single nothing single] at blank
        exact LineKind.noConfusion blank
      · by_cases opening : style.HasOpening line
        · rw [(stepLine_opening nothing single opening).1] at blank
          exact LineKind.noConfusion blank
        · rw [stepLine_plain nothing single opening] at blank
          exact LineKind.noConfusion blank

/-- Blank lines have no part in the kinds of the others. -/
theorem filter_kindsFrom (style : Style) (span : Span) (lines : List (List Char)) :
    (kindsFrom style span lines).filter (· ≠ .blank) = kindsFrom style span (lines.filter (· ≠ [])) := by
  induction lines generalizing span with
  | nil => rfl
  | cons line lines ih =>
    by_cases nothing : line = []
    · subst nothing
      rw [kindsFrom_cons, stepLine_nil, List.filter_cons_of_neg (by simp),
        List.filter_cons_of_neg (by simp), ih]
    · have hkind : (stepLine style span line).1 ≠ .blank := mt kind_eq_blank_iff.1 nothing
      rw [kindsFrom_cons, List.filter_cons_of_pos (by simpa using hkind),
        List.filter_cons_of_pos (by simpa using nothing), kindsFrom_cons, ih]

/-- The blank lines are those with nothing on them. -/
theorem count_blank_kindsFrom (style : Style) (span : Span) (lines : List (List Char)) :
    (kindsFrom style span lines).count .blank = lines.count [] := by
  induction lines generalizing span with
  | nil => rfl
  | cons line lines ih =>
    rw [kindsFrom_cons, List.count_cons, List.count_cons, ih]
    simp only [beq_iff_eq, kind_eq_blank_iff]

end Kinds

/-- The kinds of the lines that can be seen depend on these lines only. -/
theorem visibleKinds_eq (content label : String) :
    visibleKinds content label = kindsFrom (Style.ofLabel label) none (visibleLines content) := by
  rw [visibleKinds, filter_kindsFrom, visibleLines_eq_filter]

/-- Code is counted among the lines that can be seen. -/
theorem classify_code (content label : String) :
    (classify content label).code = (visibleKinds content label).count .code := by
  rw [classify_eq, visibleKinds, List.count_filter (by decide)]
  rfl

/-- Comments are counted among the lines that can be seen. -/
theorem classify_comments (content label : String) :
    (classify content label).comments = (visibleKinds content label).count .comment := by
  rw [classify_eq, visibleKinds, List.count_filter (by decide)]
  rfl

/-- The blank lines are those of which nothing can be seen, inside comments or outside. -/
theorem classify_blank (content label : String) :
    (classify content label).blank = (trimmedLines content).count [] := by
  rw [classify_eq, ← count_blank_kindsFrom (Style.ofLabel label) none]
  rfl

/-! ### The counts -/

/-- Contents in which the same lines can be seen have as much code and as many comments, and each of
these lines is of the same kind in both.  The lines with nothing on them are the blank ones.  Changes of
layout, and carriage returns at the ends of the lines among them, keep what can be seen. -/
theorem classify_layout (label : String) :
    (∀ a b : String, visibleLines a = visibleLines b →
      (classify a label).code = (classify b label).code ∧
        (classify a label).comments = (classify b label).comments ∧
        visibleKinds a label = visibleKinds b label) ∧
      (∀ content : String, (classify content label).blank = (trimmedLines content).count []) ∧
      (∀ a b : String, Relaid (Text.lines a.toList) (Text.lines b.toList) ↔
        visibleLines a = visibleLines b) ∧
      ∀ content : String,
        visibleLines (String.ofList (Text.withReturns content.toList)) = visibleLines content := by
  refine ⟨?_, ?_, ?_, ?_⟩
  · intro a b same
    have hkinds : visibleKinds a label = visibleKinds b label := by
      rw [visibleKinds_eq, visibleKinds_eq, same]
    refine ⟨?_, ?_, hkinds⟩
    · rw [classify_code, classify_code, hkinds]
    · rw [classify_comments, classify_comments, hkinds]
  · intro content
    exact classify_blank content label
  · intro a b
    exact relaid_iff
  · intro content
    have hlines : Text.lines (String.ofList (Text.withReturns content.toList)).toList =
        Text.returned (Text.lines content.toList) := by
      rw [String.toList_ofList, Text.lines_withReturns]
    rw [visibleLines, visibleLines, hlines]
    exact (relaid_returned _).visible_eq.symm

/-- The same text in another layout: a byte-order mark, carriage returns, a blank line inside the comment,
and blanks on both sides. -/
theorem classify_layout_padded :
    visibleLines "/*\nx\n*/\ny" = visibleLines "\uFEFF/* \r\n\r\n\tx\r\n\u3000*/\r\ny\r\n" ∧
      (classify "/*\nx\n*/\ny" "C").comments =
        (classify "\uFEFF/* \r\n\r\n\tx\r\n\u3000*/\r\ny\r\n" "C").comments ∧
      (classify "\uFEFF/* \r\n\r\n\tx\r\n\u3000*/\r\ny\r\n" "C").blank = 2 := by
  have hsame : visibleLines "/*\nx\n*/\ny" =
      visibleLines "\uFEFF/* \r\n\r\n\tx\r\n\u3000*/\r\ny\r\n" := by decide
  obtain ⟨hkept, hblank, -, -⟩ := classify_layout "C"
  refine ⟨hsame, (hkept _ _ hsame).2.1, ?_⟩
  rw [hblank]
  decide

end CodeCensus.Comment
