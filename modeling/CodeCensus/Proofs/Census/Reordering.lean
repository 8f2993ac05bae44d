import CodeCensus.Proofs.Census.Agreement

/-!
# The same files in another order

The order in which files are examined decides which of two equally long files is ranked first, and which
markers are the first hundred.  Everything that is counted is the same in any order, and the numbers by
which the rankings are made stand in them in the same sequence (`tables_perm`).  As long as nothing is cut
off, the rankings also have the same entries.
-/

namespace CodeCensus

variable {contents : Contents} {files others : List SourceFile} {texts rest : List (SourceFile × String)}

/-- The readable files are the same in any order. -/
theorem readable_perm (perm : files.Perm others) :
    (readable contents files).Perm (readable contents others) := by
  rw [readable_eq_filterMap, readable_eq_filterMap]
  exact perm.filterMap _

namespace Census

/-! ### Languages -/

namespace LanguageTable

/-- The languages have the same lines in any order of the files. -/
theorem collect_perm (perm : texts.Perm rest) : (collect texts).Perm (collect rest) := by
  rw [collect_eq_gather, collect_eq_gather]
  exact addsUp.gather_perm perm

/-- Reordering the files reorders the rows of the languages, and nothing in them. -/
theorem languages_perm (perm : files.Perm others) :
    (ofFiles contents files).languages.Perm (ofFiles contents others).languages :=
  ((Ranking.descending_perm _ _).trans (collect_perm (readable_perm perm))).trans
    (Ranking.descending_perm _ _).symm

/-- The numbers by which the rows are ranked come in one order, so that only tied rows can change places. -/
theorem map_code_eq (perm : files.Perm others) :
    (ofFiles contents files).languages.map LanguageStats.code =
      (ofFiles contents others).languages.map LanguageStats.code :=
  Ranking.map_descending_eq (collect_perm (readable_perm perm))

theorem totals_eq (perm : files.Perm others) :
    (ofFiles contents files).totals = (ofFiles contents others).totals := by
  have hperm : (ofFiles contents files).languages.Perm (ofFiles contents others).languages :=
    languages_perm perm
  have hsum : ∀ weight : LanguageStats → Nat,
      ((ofFiles contents files).languages.map weight).sum =
        ((ofFiles contents others).languages.map weight).sum :=
    fun weight => (hperm.map weight).sum_eq
  have htotals : ∀ some : List SourceFile, (ofFiles contents some).totals =
      .ofLanguages (ofFiles contents some).languages := fun _ => rfl
  rw [htotals, htotals, LineTotals.ofLanguages_eq, LineTotals.ofLanguages_eq]
  simp only [hsum]

end LanguageTable

/-! ### Files and folders -/

namespace FileTable

variable {length : Nat}

/-- Reordering the files reorders their entries. -/
theorem entries_perm (perm : files.Perm others) :
    (entries (readable contents files)).Perm (entries (readable contents others)) :=
  (readable_perm perm).map _

/-- The folders have the same files and lines in any order of the files. -/
theorem foldersOf_perm {entries rest : List LargestFile} (perm : entries.Perm rest) :
    (foldersOf entries).Perm (foldersOf rest) :=
  addsUp.gather_perm perm

theorem totalFiles_eq (perm : files.Perm others) :
    (ofFiles contents files length).totalFiles = (ofFiles contents others length).totalFiles := by
  have hlength : ∀ some : List SourceFile, (ofFiles contents some length).totalFiles = some.length :=
    fun _ => List.length_map _
  rw [hlength, hlength, perm.length_eq]

/-- Sizes give the same sum in any order, also where it does not fit into 64 bits. -/
theorem totalSize_eq (perm : files.Perm others) :
    (ofFiles contents files length).totalSize = (ofFiles contents others length).totalSize := by
  have hsize : ∀ some : List SourceFile, (ofFiles contents some length).totalSize =
      ((entries (readable contents some)).map LargestFile.size).sum % 2 ^ 64 :=
    fun _ => foldl_addSizes _
  rw [hsize, hsize, ((entries_perm perm).map _).sum_eq]

/-- Of the largest files, the numbers of lines are the same for any order of the files, also where the
ranking is cut. -/
theorem map_lines_eq (perm : files.Perm others) :
    (ofFiles contents files length).largest.map LargestFile.lines =
      (ofFiles contents others length).largest.map LargestFile.lines :=
  Ranking.map_top_eq (entries_perm perm)

/-- Of the folders, the numbers of files are the same for any order of the files, also where the ranking is
cut. -/
theorem map_fileCount_eq (perm : files.Perm others) :
    (ofFiles contents files length).folders.map FolderStats.fileCount =
      (ofFiles contents others length).folders.map FolderStats.fileCount :=
  Ranking.map_top_eq (foldersOf_perm (entries_perm perm))

end FileTable

/-! ### Markers -/

namespace MarkerTable

variable {length : Nat}

/-- The markers are the same in any order of the files. -/
theorem hits_perm (perm : files.Perm others) :
    (hits (readable contents files)).Perm (hits (readable contents others)) :=
  (readable_perm perm).flatMap_right _

/-- The files have the same numbers of markers in any order of the markers. -/
theorem countFiles_perm {hits rest : List MarkerItem} (perm : hits.Perm rest) :
    (countFiles hits).Perm (countFiles rest) :=
  addsUp.gather_perm perm

/-- The numbers of the kinds do not depend on the order of the markers. -/
theorem countKinds_eq {hits rest : List MarkerItem} (perm : hits.Perm rest) :
    countKinds hits = countKinds rest := by
  have hcount : ∀ kind : Marker.Kind, hits.countP (·.kind == kind) = rest.countP (·.kind == kind) :=
    fun _ => perm.countP_eq _
  rw [countKinds, countKinds]
  simp only [hcount]

end MarkerTable

/-! ### All tables -/

/-- **The order of the files.**  In any order of the same files, the same is counted: lines in all and per
language, files, sizes, and markers in all, per kind and in the list of the first ones.  The numbers by
which the rankings are made, cut off or not, come in the same sequence, and a ranking that is not cut off
has the same entries. -/
theorem tables_perm (contents : Contents) {files others : List SourceFile} (perm : files.Perm others)
    (top markerTop : Nat) :
    let languages := LanguageTable.ofFiles contents files
    let languages' := LanguageTable.ofFiles contents others
    let table := FileTable.ofFiles contents files top
    let table' := FileTable.ofFiles contents others top
    let markers := MarkerTable.ofFiles contents files markerTop
    let markers' := MarkerTable.ofFiles contents others markerTop
    let entries := FileTable.entries (readable contents files)
    let hits := MarkerTable.hits (readable contents files)
    (languages.totals = languages'.totals ∧
      languages.languages.Perm languages'.languages ∧
      languages.languages.map LanguageStats.code = languages'.languages.map LanguageStats.code) ∧
    (table.totalFiles = table'.totalFiles ∧ table.totalSize = table'.totalSize ∧
      table.largest.map LargestFile.lines = table'.largest.map LargestFile.lines ∧
      table.folders.map FolderStats.fileCount = table'.folders.map FolderStats.fileCount) ∧
    (markers.total = markers'.total ∧ markers.byKind = markers'.byKind ∧
      markers.byFile.map FileMarkers.count = markers'.byFile.map FileMarkers.count ∧
      markers.items.length = markers'.items.length) ∧
    (entries.length ≤ Ranking.limit top FileTable.standardLength →
      table.largest.Perm table'.largest) ∧
    ((FileTable.foldersOf entries).length ≤ Ranking.limit top FileTable.standardLength →
      table.folders.Perm table'.folders) ∧
    ((MarkerTable.countFiles hits).length ≤ Ranking.limit markerTop MarkerTable.standardLength →
      markers.byFile.Perm markers'.byFile) := by
  intro languages languages' table table' markers markers' entries hits
  have hentries : entries.Perm (FileTable.entries (readable contents others)) :=
    FileTable.entries_perm perm
  have hfolders := FileTable.foldersOf_perm hentries
  have hhits : hits.Perm (MarkerTable.hits (readable contents others)) := MarkerTable.hits_perm perm
  have hfiles := MarkerTable.countFiles_perm hhits
  refine ⟨⟨?_, ?_, ?_⟩, ⟨?_, ?_, ?_, ?_⟩, ⟨?_, ?_, ?_, ?_⟩, ?_, ?_, ?_⟩
  · exact LanguageTable.totals_eq perm
  · exact LanguageTable.languages_perm perm
  · exact LanguageTable.map_code_eq perm
  · exact FileTable.totalFiles_eq perm
  · exact FileTable.totalSize_eq perm
  · exact FileTable.map_lines_eq perm
  · exact FileTable.map_fileCount_eq perm
  · exact hhits.length_eq
  · exact MarkerTable.countKinds_eq hhits
  · exact Ranking.map_top_eq hfiles
  · exact (List.length_take ..).trans ((congrArg _ hhits.length_eq).trans (List.length_take ..).symm)
  · exact Ranking.top_perm_top hentries
  · exact Ranking.top_perm_top hfolders
  · exact Ranking.top_perm_top hfiles

/-- A file of the same folder that is as long as the one with a marker. -/
def plainFile : SourceFile :=
  { path := ⟨[0x63]⟩, relativePath := "src/c.rs", extension := ".rs", label := "Rust", size := 9 }

/-- The texts of the two files. -/
def evenContents : Contents := fun path =>
  if path = plainFile.path then some "g()\nh(0)" else markedContents path

/-- Files of the same length change places. -/
theorem tables_perm_even :
    let files := [markedFile, lostFile, plainFile, markedFile]
    let others := [plainFile, markedFile, markedFile, lostFile]
    let table := FileTable.ofFiles evenContents files 0
    let table' := FileTable.ofFiles evenContents others 0
    files.Perm others ∧ readable evenContents files ≠ readable evenContents others ∧
      table.largest.Perm table'.largest ∧ table.folders.Perm table'.folders := by
  intro files others table table'
  have perm : files.Perm others := by decide
  obtain ⟨-, -, -, largest, folders, -⟩ := tables_perm evenContents perm 0 0
  exact ⟨perm, by decide, largest (by decide), folders (by decide)⟩

end Census

end CodeCensus
