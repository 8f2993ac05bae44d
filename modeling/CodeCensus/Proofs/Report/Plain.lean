import CodeCensus.Proofs.Digits
import CodeCensus.Proofs.Number.Grouped
import CodeCensus.Proofs.Report.Escapes
import CodeCensus.Report.Render
import Mathlib.Data.List.Basic

/-!
# The report without colours

If no string in a report introduces an escape sequence, the report without colours is the one with
colours less the sequences of the styles (`plain_of_coloured`).  Everything else that is shown is made by
the report itself, of letters, digits, blanks and the like, so all that has to be seen is that nothing in
it introduces a sequence.
-/

namespace CodeCensus.Report

open Escapes (isIntroducer)
open Number (grouped byteSize)

/-! ### Texts that introduce no sequence -/

/-- Whether no sequence is introduced by a character of a list. -/
def areHarmless (chars : List Char) : Bool :=
  chars.all fun c => !isIntroducer c

/-- Whether no sequence is introduced by a text. -/
def isHarmless (s : String) : Bool :=
  areHarmless s.toList

variable {first second : List Char} {s : String} {n : Nat}

/-- Characters are harmless if none of them introduces an escape sequence. -/
theorem areHarmless_iff {chars : List Char} :
    areHarmless chars ↔ ∀ c ∈ chars, isIntroducer c = false := by
  simp [areHarmless]

/-- Two harmless stretches make a harmless one, since a sequence begins at a single character. -/
@[simp] theorem areHarmless_append :
    areHarmless (first ++ second) = (areHarmless first && areHarmless second) :=
  List.all_append

@[simp] theorem areHarmless_cons {c : Char} :
    areHarmless (c :: first) = (!isIntroducer c && areHarmless first) :=
  List.all_cons

/-- What only has characters of a harmless stretch is harmless too, so nothing that is
cut from it can do any harm. -/
theorem areHarmless_of_subset (harmless : areHarmless second) (subset : first ⊆ second) :
    areHarmless first := by
  rw [areHarmless_iff] at harmless ⊢
  exact fun c mem => harmless c (subset mem)

/-- Any number of one harmless character is harmless, such as the blanks that fill a column. -/
theorem areHarmless_replicate {c : Char} (harmless : isIntroducer c = false) :
    areHarmless (List.replicate n c) := by
  rw [areHarmless_iff]
  intro d mem
  rwa [List.eq_of_mem_replicate mem]

/-- A digit does not introduce an escape sequence. -/
theorem isIntroducer_of_isDigit {c : Char} (isDigit : c.isDigit) : isIntroducer c = false := by
  have hescape : c ≠ '\x1b' := ne_of_isDigit isDigit rfl
  have hcontrol : c ≠ '\u009b' := ne_of_isDigit isDigit rfl
  simp [isIntroducer, hescape, hcontrol]

theorem areHarmless_toDigits : areHarmless (Nat.toDigits 10 n) :=
  areHarmless_iff.2 fun _ mem => isIntroducer_of_isDigit (isDigit_of_mem_toDigits mem)

/-- Two texts in a row are harmless if both of them are. -/
@[simp] theorem isHarmless_append {s t : String} :
    isHarmless (s ++ t) = (isHarmless s && isHarmless t) := by
  simp [isHarmless]

@[simp] theorem isHarmless_ofList : isHarmless (String.ofList first) = areHarmless first := by
  rw [isHarmless, String.toList_ofList]

@[simp] theorem isHarmless_repr : isHarmless n.repr := by
  have hdigits : n.repr = String.ofList (Nat.toDigits 10 n) := Nat.toString_eq_ofList_toDigits
  rw [hdigits, isHarmless_ofList]
  exact areHarmless_toDigits

/-- Filling a column with blanks on the right makes no difference. -/
@[simp] theorem isHarmless_padRight {width : Nat} : isHarmless (padRight width s) = isHarmless s := by
  have hblanks : areHarmless (List.replicate (width - s.length) ' ') := areHarmless_replicate rfl
  rw [padRight, isHarmless_append, isHarmless_ofList, hblanks, Bool.and_true]

/-- Filling a column with blanks on the left makes no difference. -/
@[simp] theorem isHarmless_padLeft {width : Nat} : isHarmless (padLeft width s) = isHarmless s := by
  have hblanks : areHarmless (List.replicate (width - s.length) ' ') := areHarmless_replicate rfl
  rw [padLeft, isHarmless_append, isHarmless_ofList, hblanks, Bool.true_and]

/-- A text that is cut, with dots in place of the rest, is as harmless as the whole. -/
theorem isHarmless_shorten {length : Nat} (harmless : isHarmless s) : isHarmless (shorten length s) := by
  unfold shorten
  split
  · exact harmless
  · have hfront : areHarmless (s.toList.take (length - 3)) :=
      areHarmless_of_subset harmless (List.take_subset _ _)
    rw [isHarmless_append, isHarmless_ofList, hfront]
    decide

@[simp] theorem isHarmless_rule {length : Nat} : isHarmless (rule length) := by
  rw [rule, isHarmless_ofList]
  exact areHarmless_replicate rfl

/-- Parts with a separator between them are harmless if the parts and the separator are. -/
theorem isHarmless_intercalate {separator : String} {parts : List String}
    (harmless : isHarmless separator) (each : ∀ part ∈ parts, isHarmless part) :
    isHarmless (separator.intercalate parts) := by
  rw [isHarmless, String.toList_intercalate]
  induction parts with
  | nil => rfl
  | cons part parts ih =>
    obtain ⟨first, others⟩ := List.forall_mem_cons.1 each
    cases parts with
    | nil =>
      rw [List.map_singleton, List.intercalate_singleton]
      exact first
    | cons next parts =>
      have hrest := ih others
      have hseparator : areHarmless separator.toList := harmless
      have hfirst : areHarmless part.toList := first
      rw [List.map_cons] at hrest
      rw [List.map_cons, List.map_cons, List.intercalate_cons_cons, areHarmless_append,
        areHarmless_append, hrest, hseparator, hfirst]
      rfl

@[simp] theorem isHarmless_grouped : isHarmless (grouped n) := by
  refine areHarmless_iff.2 fun c mem => ?_
  rcases Number.isDigit_or_eq_comma_of_mem_grouped mem with digit | rfl
  · exact isIntroducer_of_isDigit digit
  · rfl

@[simp] theorem isHarmless_byteSize : isHarmless (byteSize n) := by
  have hdigits : ∀ digit < 10, isIntroducer (Nat.digitChar digit) = false := by decide
  have hdigit : ∀ k : Nat, isIntroducer (Nat.digitChar (k % 10)) = false :=
    fun k => hdigits _ (Nat.mod_lt k (by decide))
  have htext : ∀ k : Nat, areHarmless (Number.hundredthsText k) := by
    intro k
    unfold Number.hundredthsText
    split_ifs
    · exact areHarmless_toDigits
    · simp +decide [areHarmless_toDigits, hdigit]
    · simp +decide [areHarmless_toDigits, hdigit]
  have hsymbol : ∀ unit : Number.SizeUnit, isHarmless unit.symbol := by
    intro unit
    cases unit <;> decide
  simp +decide [byteSize, htext, hsymbol]

/-! ### Styled texts -/

/-- Whether no sequence is introduced by the text of a styled text. -/
def Styled.isHarmless (styled : Styled) : Bool :=
  areHarmless styled.uncoloured

namespace Styled

variable {first second : Styled}

@[simp] theorem isHarmless_nil : Styled.isHarmless [] := rfl

/-- Pieces in a row are harmless if all of them are, whatever their styles. -/
@[simp] theorem isHarmless_append :
    Styled.isHarmless (first ++ second) = (first.isHarmless && second.isHarmless) := by
  simp [Styled.isHarmless]

/-- A text without a style is as harmless as the text. -/
@[simp] theorem isHarmless_plain : (plain s).isHarmless = Report.isHarmless s := by
  simp [Styled.isHarmless, Report.isHarmless]

/-- Styles do not count, since their codes are not part of what is said. -/
@[simp] theorem isHarmless_under {styles : List Style} {inner : Styled} :
    (under styles inner).isHarmless = inner.isHarmless := by
  simp [Styled.isHarmless]

@[simp] theorem isHarmless_paint {style : Style} : (paint style s).isHarmless = Report.isHarmless s := by
  simp [Styled.isHarmless, Report.isHarmless]

/-- Rows are harmless if and only if each of them is. -/
@[simp] theorem isHarmless_flatMap {α : Type} {f : α → Styled} {entries : List α} :
    Styled.isHarmless (entries.flatMap f) ↔ ∀ entry ∈ entries, (f entry).isHarmless := by
  simp only [Styled.isHarmless, uncoloured_flatMap, areHarmless, List.all_flatMap, List.all_eq_true]

/-- Styled parts with a separator between them are harmless if the parts and the separator are. -/
theorem isHarmless_joined {separator : String} {parts : List Styled}
    (harmless : Report.isHarmless separator) (each : ∀ part ∈ parts, Styled.isHarmless part) :
    Styled.isHarmless (joined separator parts) := by
  fun_induction joined separator parts with
  | case1 => rfl
  | case2 last => exact each last List.mem_cons_self
  | case3 first rest _ ih =>
    obtain ⟨hfirst, hrest⟩ := List.forall_mem_cons.1 each
    rw [isHarmless_append, isHarmless_append, isHarmless_plain, hfirst, harmless, ih hrest]
    rfl

end Styled

/-! ### The sections of a report -/

variable {r : Report}

/-- The heading says the name of the project, and nothing else that could do harm. -/
theorem isHarmless_headingSection (name : isHarmless r.projectName) : (headingSection r).isHarmless := by
  simp +decide [headingSection, name]

/-- The overview says numbers only. -/
theorem isHarmless_overviewSection : (overviewSection r).isHarmless := by
  simp +decide [overviewSection]

/-- A row of the table of languages is harmless if its cells are. -/
theorem isHarmless_cells {first files code comments blank total : String} (firstOk : isHarmless first)
    (filesOk : isHarmless files) (codeOk : isHarmless code) (commentsOk : isHarmless comments)
    (blankOk : isHarmless blank) (totalOk : isHarmless total) :
    isHarmless (" ".intercalate (padRight 20 first :: cells files code comments blank total)) := by
  refine isHarmless_intercalate (by decide) ?_
  simp [cells, filesOk, codeOk, commentsOk, blankOk, totalOk, firstOk]

/-- The table of languages is harmless if the labels are. -/
theorem isHarmless_languagesSection (labels : ∀ s ∈ r.languages.languages, isHarmless s.label) :
    (languagesSection r).isHarmless := by
  have hrows : ∀ s ∈ r.languages.languages.take maxLanguages, (languageRow s).isHarmless := by
    intro s mem
    have hlabel : isHarmless (shorten 20 s.label) :=
      isHarmless_shorten (labels s (List.mem_of_mem_take mem))
    simp +decide [languageRow, hlabel]
  have hheads : isHarmless (" ".intercalate
      (padRight 20 "LANGUAGE" :: cells "FILES" "CODE" "COMMENTS" "BLANK" "TOTAL")) :=
    isHarmless_cells (by decide) (by decide) (by decide) (by decide) (by decide) (by decide)
  have htotals : isHarmless (" ".intercalate
      (padRight 20 "Total" :: cells (grouped r.languages.totals.files) (grouped r.languages.totals.code)
        (grouped r.languages.totals.comments) (grouped r.languages.totals.blank)
        (grouped r.languages.totals.total))) :=
    isHarmless_cells (by decide) isHarmless_grouped isHarmless_grouped isHarmless_grouped
      isHarmless_grouped isHarmless_grouped
  simpa +decide [languagesSection, hheads, htotals] using hrows

/-- A numbered row is harmless if its name and its remark are. -/
theorem isHarmless_numberedRow {index : Nat} {name about : String} (nameOk : isHarmless name)
    (aboutOk : isHarmless about) : (numberedRow index name about).isHarmless := by
  simp +decide [numberedRow, ordinal, nameOk, aboutOk]

/-- The list of the largest files is harmless if their paths are. -/
theorem isHarmless_largestSection (paths : ∀ f ∈ r.files.largest, isHarmless f.path) :
    (largestSection r).isHarmless := by
  unfold largestSection
  split
  · rfl
  · have hrows : ∀ entry ∈ r.files.largest.zipIdx,
        (numberedRow entry.2 entry.1.path
          (grouped entry.1.lines ++ " lines, " ++ byteSize entry.1.size)).isHarmless := by
      intro entry mem
      refine isHarmless_numberedRow (paths _ (List.fst_mem_of_mem_zipIdx mem)) ?_
      simp +decide
    simpa +decide using hrows

/-- A folder is shown by its path, or by a dot, which is harmless. -/
theorem isHarmless_displayPath {folder : Census.FolderStats} (path : isHarmless folder.path) :
    isHarmless folder.displayPath := by
  unfold Census.FolderStats.displayPath
  split
  · decide
  · exact path

/-- The list of folders is harmless if their paths are. -/
theorem isHarmless_foldersSection (paths : ∀ f ∈ r.files.folders, isHarmless f.path) :
    (foldersSection r).isHarmless := by
  unfold foldersSection
  split
  · rfl
  · have hrows : ∀ entry ∈ (r.files.folders.take maxFolders).zipIdx,
        (numberedRow entry.2 entry.1.displayPath
          (toString entry.1.fileCount ++ " files, " ++ grouped entry.1.totalLines ++
            " lines")).isHarmless := by
      intro entry mem
      have hpath := paths _ (List.mem_of_mem_take (List.fst_mem_of_mem_zipIdx mem))
      refine isHarmless_numberedRow (isHarmless_displayPath hpath) ?_
      simp +decide
    simpa +decide using hrows

/-- The names of the kinds of markers are harmless. -/
theorem isHarmless_kindName (kind : Marker.Kind) : isHarmless kind.name := by
  cases kind <;> decide

/-- The part about markers is harmless if the texts behind the markers and the paths of their files are. -/
theorem isHarmless_markersSection
    (items : ∀ i ∈ r.markers.items, isHarmless i.text ∧ isHarmless i.file)
    (files : ∀ f ∈ r.markers.byFile, isHarmless f.file) : (markersSection r).isHarmless := by
  have hitems : ∀ i ∈ r.markers.items.take maxEntries,
      isHarmless i.file ∧ isHarmless (shorten 60 i.text) := by
    intro i mem
    obtain ⟨htext, hfile⟩ := items i (List.mem_of_mem_take mem)
    exact ⟨hfile, isHarmless_shorten htext⟩
  have hfiles : ∀ f ∈ r.markers.byFile.take maxEntries, isHarmless f.file :=
    fun f mem => files f (List.mem_of_mem_take mem)
  have hkinds : Styled.isHarmless (joined " | " (r.markers.byKind.map fun entry =>
      .paint (if entry.1.isCritical then .red else .yellow)
        (toString entry.2 ++ " " ++ entry.1.name))) := by
    refine Styled.isHarmless_joined (by decide) (List.forall_mem_map.2 fun entry _ => ?_)
    simp +decide [isHarmless_kindName]
  simp only [markersSection]
  split
  · simp +decide
  · split
    · simpa +decide [isHarmless_kindName] using And.intro hkinds hitems
    · simpa +decide [isHarmless_kindName] using And.intro hkinds (And.intro hitems hfiles)

/-- The part about the history is harmless if its authors, its paths and its two dates are. -/
theorem isHarmless_historySection
    (contributors : ∀ c ∈ r.history.contributors, isHarmless c.name ∧ isHarmless c.email)
    (churn : ∀ c ∈ r.history.fileChurn, isHarmless c.file)
    (first : ∀ date ∈ r.history.firstCommit, isHarmless date)
    (last : ∀ date ∈ r.history.lastCommit, isHarmless date) : (historySection r).isHarmless := by
  have hcontributors : ∀ c ∈ r.history.contributors.take maxEntries,
      (contributorRow c).isHarmless := by
    intro c mem
    obtain ⟨hname, hemail⟩ := contributors c (List.mem_of_mem_take mem)
    simp +decide [contributorRow, hname, hemail]
  have hchurn : ∀ c ∈ r.history.fileChurn.take maxEntries, (churnRow c).isHarmless := by
    intro c mem
    simp +decide [churnRow, churn c (List.mem_of_mem_take mem)]
  have hspan : (spanRow r.history).isHarmless := by
    unfold spanRow
    split
    · next hfirst hlast =>
      simp +decide [first _ hfirst, last _ hlast]
    · rfl
  simp only [historySection]
  split
  · split
    · simpa +decide [hspan] using hcontributors
    · simpa +decide [hspan] using And.intro hcontributors hchurn
  · simp +decide

/-- The part about dependencies says numbers and the name of a manager, and never the name of a dependency.
-/
theorem isHarmless_dependenciesSection : (dependenciesSection r).isHarmless := by
  have hmanager : isHarmless r.dependencies.manager.name := by
    cases r.dependencies.manager <;> decide
  simp only [dependenciesSection]
  split
  · rfl
  · split <;> simp +decide [hmanager]

/-- A list of remarks is harmless if its title, its bullet and its lines are. -/
theorem isHarmless_remarks {title bullet : String} {style : Style} {lines : List String}
    (titleOk : isHarmless title) (bulletOk : isHarmless bullet) (each : ∀ line ∈ lines, isHarmless line) :
    (remarks title style bullet lines).isHarmless := by
  unfold remarks
  split
  · rfl
  · simpa +decide [titleOk, bulletOk] using each

/-- The part about health is harmless if the issues and the advice are. -/
theorem isHarmless_healthSection (issues : ∀ s ∈ r.health.issues, isHarmless s)
    (recommendations : ∀ s ∈ r.health.recommendations, isHarmless s) :
    (healthSection r).isHarmless := by
  have hletter : isHarmless r.health.grade.letter := by
    cases r.health.grade <;> decide
  have hissues : (remarks "Issues" .red "•" r.health.issues).isHarmless :=
    isHarmless_remarks (by decide) (by decide) issues
  have hadvice : (remarks "Recommendations" .green "→" r.health.recommendations).isHarmless :=
    isHarmless_remarks (by decide) (by decide) recommendations
  simp +decide [healthSection, categoryPoints, hletter, hissues, hadvice]

/-! ### The whole report -/

/-- All strings in a report. -/
def strings (r : Report) : List String :=
  r.projectName :: r.languages.languages.map Census.LanguageStats.label ++
    r.files.largest.map Census.LargestFile.path ++ r.files.folders.map Census.FolderStats.path ++
    r.markers.items.flatMap (fun item => [item.text, item.file]) ++
    r.markers.byFile.map Census.FileMarkers.file ++
    r.history.contributors.flatMap (fun c => [c.name, c.email]) ++
    r.history.fileChurn.map History.FileChurn.file ++
    r.history.recentActivity.map History.DayActivity.date ++ r.history.firstCommit.toList ++
    r.history.lastCommit.toList ++
    r.dependencies.entries.flatMap (fun entry => entry.name :: entry.version :: entry.latest.toList) ++
    r.health.issues ++ r.health.recommendations

/-- A whole report is harmless if the strings in it are: section by section, each with the strings that it
shows. -/
theorem isHarmless_styled (harmless : ∀ s ∈ strings r, isHarmless s) : (styled r).isHarmless := by
  simp only [strings, List.cons_append, List.forall_mem_cons, List.forall_mem_append,
    List.forall_mem_map, List.forall_mem_flatMap, Option.mem_toList, and_assoc] at harmless
  obtain ⟨name, labels, largest, folders, items, files, contributors, churn, -, first, last, -, issues,
    recommendations⟩ := harmless
  have hheading := isHarmless_headingSection name
  have hlanguages := isHarmless_languagesSection labels
  have hlargest := isHarmless_largestSection largest
  have hfolders := isHarmless_foldersSection folders
  have hmarkers := isHarmless_markersSection (fun i mem => ⟨(items i mem).1, (items i mem).2.1⟩) files
  have hhistory := isHarmless_historySection
    (fun c mem => ⟨(contributors c mem).1, (contributors c mem).2.1⟩) churn first last
  have hhealth := isHarmless_healthSection issues recommendations
  simp [styled, hheading, isHarmless_overviewSection, hlanguages, hlargest, hfolders, hmarkers, hhistory,
    isHarmless_dependenciesSection, hhealth]

/-- **The report without colours** is the one with colours less the sequences of the styles, if no string
in it introduces a sequence: the pieces of text in between stay as they are. -/
theorem plain_of_coloured {r : Report} (harmless : ∀ s ∈ strings r, isHarmless s) :
    render r .text true = String.ofList (styled r).coloured ∧
      render r .text false = String.ofList (styled r).uncoloured ∧
      ∀ c ∈ (render r .text false).toList, c ≠ '\x1b' ∧ c ≠ '\u009b' := by
  have hstyled := areHarmless_iff.1 (isHarmless_styled harmless)
  have hplain : render r .text false = String.ofList (styled r).uncoloured :=
    congrArg String.ofList (Styled.strip_coloured hstyled)
  refine ⟨rfl, hplain, ?_⟩
  rw [hplain, String.toList_ofList]
  intro c mem
  simpa [isIntroducer] using hstyled c mem

/-- A report about an empty project of this name. -/
def emptyReport (name : String) : Report where
  projectName := name
  generatedAt := (0 : Int)
  languages := {}
  files := {}
  markers := {}
  history := {}
  dependencies := {}
  health := ⟨.a, 100, {}, [], []⟩

/-- A name that looks like the rest of a sequence stays as it is, although one ends in front of it. -/
theorem plain_of_coloured_rest :
    (∀ s ∈ strings (emptyReport "1;31m[0m"), isHarmless s) ∧
      render (emptyReport "1;31m[0m") .text false =
        String.ofList (styled (emptyReport "1;31m[0m")).uncoloured := by
  have harmless : ∀ s ∈ strings (emptyReport "1;31m[0m"), isHarmless s := by decide
  exact ⟨harmless, (plain_of_coloured harmless).2.1⟩

end CodeCensus.Report
