import CodeCensus.Census.Files
import CodeCensus.Census.Languages
import CodeCensus.Census.Markers
import CodeCensus.Proofs.Comment.Spans
import CodeCensus.Proofs.Ranking

/-!
# The three tables agree

The table of languages, the table of files and the table of markers are made in different ways from the
same files.  Here each of them is brought to sums over the readable files: the totals of the languages
(`LanguageTable.totals_ofAnswers`), the two rankings of files (`FileTable.sum_entries`,
`FileTable.sum_foldersOf`) and the markers (`MarkerTable.length_hits_le`).  What the tables say about
the same files can then be compared.
-/

namespace CodeCensus

/-! ### Readable files -/

theorem readable_eq_filterMap (contents : Contents) (files : List SourceFile) :
    readable contents files = files.filterMap fun file => (contents file.path).map (file, ·) := by
  rw [readable, Answers.texts, answers, List.filterMap_map]
  rfl

/-- A file comes first among those that can be read, if it can be read. -/
theorem readable_cons (contents : Contents) (file : SourceFile) (files : List SourceFile) :
    readable contents (file :: files) =
      ((contents file.path).map (file, ·)).toList ++ readable contents files := by
  rw [readable_eq_filterMap, readable_eq_filterMap, List.filterMap_cons]
  cases contents file.path <;> rfl

/-- The readable files are among all files, in the same order. -/
theorem map_fst_readable_sublist (contents : Contents) (files : List SourceFile) :
    ((readable contents files).map Prod.fst).Sublist files := by
  rw [readable_eq_filterMap]
  induction files with
  | nil => simp
  | cons file files ih =>
    cases hfound : contents file.path with
    | none => simpa [hfound] using ih.cons file
    | some text => simpa [hfound] using ih.cons_cons file

theorem length_readable_le (contents : Contents) (files : List SourceFile) :
    (readable contents files).length ≤ files.length := by
  simpa using (map_fst_readable_sublist contents files).length_le

/-! ### Markers -/

namespace Marker

/-- A line has at most one marker. -/
theorem length_scan_le (content : String) : (scan content).length ≤ Text.lineCount content := by
  refine (List.length_filterMap_le _ _).trans ?_
  rw [List.length_zipIdx, Text.lineCount]

/-- The number of a marker is that of a line. -/
theorem line_of_mem_scan {content : String} {hit : Hit} (mem : hit ∈ scan content) :
    1 ≤ hit.line ∧ hit.line ≤ Text.lineCount content := by
  obtain ⟨⟨line, number⟩, hline, hhit⟩ := List.mem_filterMap.1 mem
  obtain ⟨⟨kind, text⟩, -, rfl⟩ := Option.map_eq_some_iff.1 hhit
  obtain ⟨hlow, hhigh, -⟩ := List.mem_zipIdx hline
  refine ⟨hlow, ?_⟩
  change number ≤ (Text.lines content.toList).length
  omega

end Marker

namespace Census

open Comment (LineCounts)

/-! ### Languages -/

/-- The line counts of a readable file. -/
def countsOf (entry : SourceFile × String) : LineCounts :=
  Comment.classify entry.2 entry.1.label

namespace LineTotals

/-- The totals are sums over the languages. -/
theorem ofLanguages_eq (languages : List LanguageStats) :
    ofLanguages languages =
      { files := (languages.map LanguageStats.files).sum
        code := (languages.map LanguageStats.code).sum
        comments := (languages.map LanguageStats.comments).sum
        blank := (languages.map LanguageStats.blank).sum
        total := (languages.map LanguageStats.total).sum } := by
  induction languages using List.reverseRecOn with
  | nil => rfl
  | append_singleton languages stats ih =>
    rw [ofLanguages, List.foldl_append]
    rw [ofLanguages] at ih
    rw [ih]
    simp [addLanguage]

end LineTotals

namespace LanguageTable

theorem collect_eq_gather (texts : List (SourceFile × String)) :
    collect texts = Ranking.gather LanguageStats.label (fun entry => entry.1.label)
      (fun entry => .ofFile entry.1.label (countsOf entry))
      (fun entry stats => stats.addFile (countsOf entry)) texts := rfl

/-- The entry of a language is known from its label and from its numbers of files and lines. -/
theorem addsUp : Ranking.AddsUp LanguageStats.label (fun entry : SourceFile × String => entry.1.label)
    (fun entry => .ofFile entry.1.label (countsOf entry)) (fun entry stats => stats.addFile (countsOf entry))
    [LanguageStats.files, LanguageStats.code, LanguageStats.comments, LanguageStats.blank,
      LanguageStats.total] where
  keyFresh _ := rfl
  keyChange _ _ := rfl
  additive weight mem entry stats _ := by
    simp only [List.mem_cons, List.not_mem_nil, or_false] at mem
    rcases mem with rfl | rfl | rfl | rfl | rfl <;> rfl
  determined a b label numbers := by
    simp only [List.forall_mem_cons] at numbers
    obtain ⟨hfiles, hcode, hcomments, hblank, htotal, -⟩ := numbers
    cases a
    cases b
    subst label hfiles hcode hcomments hblank htotal
    rfl

/-- A number that is added up over the files of a language is added up over all of them. -/
theorem sum_collect {weight : LanguageStats → Nat}
    (additive : ∀ entry stats, weight (stats.addFile (countsOf entry)) =
      weight stats + weight (.ofFile entry.1.label (countsOf entry)))
    (texts : List (SourceFile × String)) :
    ((Ranking.descending LanguageStats.code (collect texts)).map weight).sum =
      (texts.map fun entry => weight (.ofFile entry.1.label (countsOf entry))).sum := by
  rw [((Ranking.descending_perm _ _).map weight).sum_eq, collect_eq_gather]
  exact Ranking.sum_gather (fun entry stats _ => additive entry stats) texts

/-- The totals are sums over the files that could be read. -/
theorem totals_ofAnswers (answers : Answers) :
    (ofAnswers answers).totals =
      { files := answers.texts.length
        code := (answers.texts.map fun entry => (countsOf entry).code).sum
        comments := (answers.texts.map fun entry => (countsOf entry).comments).sum
        blank := (answers.texts.map fun entry => (countsOf entry).blank).sum
        total := (answers.texts.map fun entry => (countsOf entry).total).sum } := by
  simp only [ofAnswers, LineTotals.ofLanguages_eq]
  rw [sum_collect (fun _ _ => rfl), sum_collect (fun _ _ => rfl), sum_collect (fun _ _ => rfl),
    sum_collect (fun _ _ => rfl), sum_collect (fun _ _ => rfl)]
  simp [LanguageStats.ofFile]

end LanguageTable

/-! ### Files and folders -/

namespace FileTable

variable (texts : List (SourceFile × String))

@[simp] theorem length_entries : (entries texts).length = texts.length :=
  List.length_map _

theorem sum_lines_entries : ((entries texts).map LargestFile.lines).sum =
    (texts.map fun entry => Text.lineCount entry.2).sum := by
  rw [entries, List.map_map]
  rfl

theorem sum_size_entries : ((entries texts).map LargestFile.size).sum =
    (texts.map fun entry => entry.1.size).sum := by
  rw [entries, List.map_map]
  rfl

/-- The entry of a folder is known from its path and from its numbers of files and lines. -/
theorem addsUp : Ranking.AddsUp FolderStats.path (fun entry => folderOf entry.path)
    (fun entry => .ofFile (folderOf entry.path) entry.lines)
    (fun (entry : LargestFile) folder => folder.addFile entry.lines)
    [FolderStats.fileCount, FolderStats.totalLines] where
  keyFresh _ := rfl
  keyChange _ _ := rfl
  additive weight mem entry folder _ := by
    simp only [List.mem_cons, List.not_mem_nil, or_false] at mem
    rcases mem with rfl | rfl <;> rfl
  determined a b path numbers := by
    simp only [List.forall_mem_cons] at numbers
    obtain ⟨hcount, hlines, -⟩ := numbers
    cases a
    cases b
    subst path hcount hlines
    rfl

/-- The folders together have as many files as there are entries. -/
theorem sum_fileCount_foldersOf (entries : List LargestFile) :
    ((foldersOf entries).map FolderStats.fileCount).sum = entries.length := by
  rw [foldersOf, Ranking.sum_gather (fun _ _ _ => rfl)]
  simp [FolderStats.ofFile]

/-- The folders together have the lines of all entries. -/
theorem sum_totalLines_foldersOf (entries : List LargestFile) :
    ((foldersOf entries).map FolderStats.totalLines).sum = (entries.map LargestFile.lines).sum := by
  rw [foldersOf, Ranking.sum_gather (fun _ _ _ => rfl)]
  rfl

theorem length_foldersOf_le (entries : List LargestFile) :
    (foldersOf entries).length ≤ entries.length :=
  Ranking.length_gather_le entries

/-- As long as it is small enough, the sum in 64 bits is the sum. -/
theorem foldl_addSizes (sizes : List Nat) : sizes.foldl addSizes 0 = sizes.sum % 2 ^ 64 := by
  induction sizes using List.reverseRecOn with
  | nil => rfl
  | append_singleton sizes size ih =>
    rw [List.foldl_append, List.foldl_cons, List.foldl_nil, ih, addSizes, List.sum_append,
      List.sum_singleton]
    exact Nat.mod_add_mod _ _ _

/-- The size of a table is that of its readable files, if the sizes of all files fit into 64 bits. -/
theorem totalSize_ofFiles {contents : Contents} {files : List SourceFile} (length : Nat)
    (hsizes : (files.map SourceFile.size).sum < 2 ^ 64) :
    (ofFiles contents files length).totalSize =
      ((entries (readable contents files)).map LargestFile.size).sum := by
  have hle : ((readable contents files).map fun entry => entry.1.size).sum ≤
      (files.map SourceFile.size).sum := by
    have hsublist := (map_fst_readable_sublist contents files).map SourceFile.size
    rw [List.map_map] at hsublist
    exact hsublist.sum_le_sum fun _ _ => Nat.zero_le _
  rw [ofFiles, ofAnswers, foldl_addSizes, Nat.mod_eq_of_lt]
  · rfl
  · exact lt_of_le_of_lt ((sum_size_entries _).le.trans hle) hsizes

end FileTable

/-! ### Tables of markers -/

namespace MarkerTable

/-- The entry of a file is known from its path and from its number of markers. -/
theorem addsUp : Ranking.AddsUp FileMarkers.file MarkerItem.file (fun hit => ⟨hit.file, 1⟩)
    (fun (_ : MarkerItem) entry => { entry with count := entry.count + 1 }) [FileMarkers.count] where
  keyFresh _ := rfl
  keyChange _ _ := rfl
  additive weight mem hit entry _ := by
    obtain rfl : weight = FileMarkers.count := List.mem_singleton.1 mem
    rfl
  determined a b file numbers := by
    have hcount : a.count = b.count := numbers FileMarkers.count (List.mem_singleton.2 rfl)
    cases a
    cases b
    subst file hcount
    rfl

/-- There are at most as many markers as lines. -/
theorem length_hits_le (texts : List (SourceFile × String)) :
    (hits texts).length ≤ (texts.map fun entry => Text.lineCount entry.2).sum := by
  rw [hits, List.length_flatMap]
  refine List.sum_le_sum fun entry _ => ?_
  rw [List.length_map]
  exact Marker.length_scan_le entry.2

/-- Every marker stands on a line of a text of its file. -/
theorem line_of_mem_hits {texts : List (SourceFile × String)} {item : MarkerItem}
    (mem : item ∈ hits texts) : ∃ entry ∈ texts, entry.1.relativePath = item.file ∧
      1 ≤ item.line ∧ item.line ≤ Text.lineCount entry.2 := by
  obtain ⟨entry, hentry, hitem⟩ := List.mem_flatMap.1 mem
  obtain ⟨hit, hhit, rfl⟩ := List.mem_map.1 hitem
  exact ⟨entry, hentry, rfl, Marker.line_of_mem_scan hhit⟩

end MarkerTable

/-! ### Agreement -/

/-- Three tables of the same files count the same readable files and the same lines.  A ranking of files
that is long enough shows all of it, a shorter one less; and every marker is on one of these lines. -/
theorem tables_agree (contents : Contents) (files : List SourceFile)
    (hsizes : (files.map SourceFile.size).sum < 2 ^ 64) (top markerTop : Nat) :
    let readable := readable contents files
    let totals := (LanguageTable.ofFiles contents files).totals
    let table := FileTable.ofFiles contents files top
    let markers := MarkerTable.ofFiles contents files markerTop
    totals.files = readable.length ∧
      totals.total = totals.code + totals.comments + totals.blank ∧
      totals.total = (readable.map fun entry => Text.lineCount entry.2).sum ∧
      totals.files ≤ table.totalFiles ∧
      (top ≠ 0 → readable.length ≤ top →
        table.largest.length = readable.length ∧
        (table.largest.map LargestFile.lines).sum = totals.total ∧
        (table.folders.map FolderStats.fileCount).sum = readable.length ∧
        (table.folders.map FolderStats.totalLines).sum = totals.total ∧
        (table.largest.map LargestFile.size).sum = table.totalSize) ∧
      (table.largest.length ≤ readable.length ∧
        (table.largest.map LargestFile.lines).sum ≤ totals.total ∧
        (table.folders.map FolderStats.fileCount).sum ≤ readable.length ∧
        (table.folders.map FolderStats.totalLines).sum ≤ totals.total ∧
        (table.largest.map LargestFile.size).sum ≤ table.totalSize) ∧
      markers.total ≤ totals.total ∧
      ∀ item ∈ markers.items, ∃ entry ∈ readable, entry.1.relativePath = item.file ∧
        1 ≤ item.line ∧ item.line ≤ Text.lineCount entry.2 := by
  intro readable totals table markers
  have htotals : totals = _ := LanguageTable.totals_ofAnswers (answers contents files)
  have hfiles : totals.files = readable.length := by rw [htotals]; rfl
  have hlines : totals.total = ((FileTable.entries readable).map LargestFile.lines).sum := by
    rw [htotals, FileTable.sum_lines_entries]
    simp only [countsOf, Comment.classify_total]
    rfl
  have hkinds : totals.total = totals.code + totals.comments + totals.blank := by
    rw [htotals]
    simp only [← List.sum_map_add, countsOf, Comment.classify_sum]
  have hlength : (FileTable.entries readable).length = readable.length :=
    FileTable.length_entries readable
  have hfolderFiles := FileTable.sum_fileCount_foldersOf (FileTable.entries readable)
  have hfolderLines := FileTable.sum_totalLines_foldersOf (FileTable.entries readable)
  have hsize : table.totalSize = ((FileTable.entries readable).map LargestFile.size).sum :=
    FileTable.totalSize_ofFiles top hsizes
  refine ⟨hfiles, hkinds, hlines.trans (FileTable.sum_lines_entries _), ?_, ?_, ?_, ?_, ?_⟩
  · rw [hfiles]
    exact (length_readable_le contents files).trans_eq (List.length_map _).symm
  · intro given enough
    have hlimit : Ranking.limit top FileTable.standardLength = top := Ranking.limit_of_ne_zero given
    have hlargest : table.largest.Perm (FileTable.entries readable) :=
      Ranking.top_perm (by
        rw [hlimit]
        exact hlength.trans_le enough)
    have hfolders : table.folders.Perm (FileTable.foldersOf (FileTable.entries readable)) :=
      Ranking.top_perm (by
        rw [hlimit]
        exact (FileTable.length_foldersOf_le _).trans (hlength.trans_le enough))
    refine ⟨hlargest.length_eq.trans hlength, ?_, ?_, ?_, ?_⟩
    · rw [hlines, (hlargest.map _).sum_eq]
    · rw [(hfolders.map _).sum_eq, hfolderFiles, hlength]
    · rw [(hfolders.map _).sum_eq, hfolderLines, hlines]
    · rw [hsize, (hlargest.map _).sum_eq]
  · refine ⟨?_, ?_, ?_, ?_, ?_⟩
    · rw [← hlength]
      exact Ranking.length_top.trans_le (Nat.min_le_right _ _)
    · rw [hlines]
      exact Ranking.sum_top_le _
    · rw [← hlength, ← hfolderFiles]
      exact Ranking.sum_top_le _
    · rw [hlines, ← hfolderLines]
      exact Ranking.sum_top_le _
    · rw [hsize]
      exact Ranking.sum_top_le _
  · rw [hlines, FileTable.sum_lines_entries]
    exact MarkerTable.length_hits_le readable
  · intro item mem
    exact MarkerTable.line_of_mem_hits (List.mem_of_mem_take mem)

/-- A file with a marker. -/
def markedFile : SourceFile :=
  { path := ⟨[0x61]⟩, relativePath := "src/a.rs", extension := ".rs", label := "Rust", size := 14 }

/-- A file that cannot be read. -/
def lostFile : SourceFile :=
  { path := ⟨[0x62]⟩, relativePath := "b.py", extension := ".py", label := "Python", size := 5 }

/-- The text of the file with a marker, and nothing else. -/
def markedContents : Contents := fun path =>
  if path = markedFile.path then some "// TODO: x\nf()" else none

/-- The same file twice, and one that cannot be read between them. -/
theorem tables_agree_repeated :
    let files := [markedFile, lostFile, markedFile]
    let totals := (LanguageTable.ofFiles markedContents files).totals
    let table := FileTable.ofFiles markedContents files 2
    let item : MarkerItem := ⟨.todo, "x", "src/a.rs", 1⟩
    (files.map SourceFile.size).sum < 2 ^ 64 ∧ (readable markedContents files).length = 2 ∧
      item ∈ (MarkerTable.ofFiles markedContents files 0).items ∧
      (table.largest.map LargestFile.lines).sum = totals.total ∧
      (table.folders.map FolderStats.fileCount).sum = 2 ∧
      (table.folders.map FolderStats.totalLines).sum = totals.total ∧
      (table.largest.map LargestFile.size).sum = table.totalSize ∧
      ∃ entry ∈ readable markedContents files, entry.1.relativePath = "src/a.rs" ∧
        1 ≤ 1 ∧ 1 ≤ Text.lineCount entry.2 := by
  intro files totals table item
  have hsizes : (files.map SourceFile.size).sum < 2 ^ 64 := by decide
  have hreadable : (readable markedContents files).length = 2 := by decide
  have hitem : item ∈ (MarkerTable.ofFiles markedContents files 0).items := by decide
  obtain ⟨-, -, -, -, enough, -, -, marked⟩ := tables_agree markedContents files hsizes 2 0
  obtain ⟨-, hlines, hfolders, hfolderLines, hsize⟩ := enough (by decide) hreadable.le
  exact ⟨hsizes, hreadable, hitem, hlines, hfolders.trans hreadable, hfolderLines, hsize,
    marked item hitem⟩

end Census

end CodeCensus
