import CodeCensus.Proofs.Census.Agreement
import CodeCensus.Proofs.Ranking.Order
import Mathlib.Data.List.TakeWhile

/-!
# The rankings of files and folders, entry by entry

Both rankings are beginnings of one list, however long they are asked to be: of the files that can be read,
ranked by lines (`exists_ranked_largest`), and of their folders, ranked by files
(`exists_ranked_folders`).  A folder has the files that stand in it, which is read off their paths
(`folderOf_eq_iff`), and it has all of them, also those that the ranking of files does not show.
-/

namespace CodeCensus

namespace Census

/-! ### The folder of a path -/

/-- The folder is what stands in front of the last slash of a path, and nothing where there is no slash. -/
def IsFolderOf (folder path : String) : Prop :=
  (∃ name : List Char, '/' ∉ name ∧ path.toList = folder.toList ++ '/' :: name) ∨
    '/' ∉ path.toList ∧ folder = ""

theorem bne_slash_of_mem_reverse {name : List Char} (noSlash : '/' ∉ name) :
    ∀ c ∈ name.reverse, c != '/' := by
  intro c hc
  rw [bne_iff_ne]
  rintro rfl
  exact noSlash (List.mem_reverse.1 hc)

/-- The folder of a path is what comes before its last slash. -/
theorem folderOf_of_split {path : String} {front name : List Char} (last : '/' ∉ name)
    (split : path.toList = front ++ '/' :: name) : folderOf path = String.ofList front := by
  rw [folderOf, split, List.reverse_append, List.reverse_cons, List.append_assoc,
    List.dropWhile_append_of_pos (bne_slash_of_mem_reverse last)]
  simp

/-- A path without slash lies in the folder that is examined. -/
theorem folderOf_of_noSlash {path : String} (noSlash : '/' ∉ path.toList) : folderOf path = "" := by
  rw [folderOf, List.dropWhile_eq_nil_iff.2 (bne_slash_of_mem_reverse noSlash)]
  rfl

/-- A path is cut at its last slash. -/
theorem folderOf_eq_iff {folder path : String} : folderOf path = folder ↔ IsFolderOf folder path := by
  constructor
  · rintro rfl
    by_cases slash : '/' ∈ path.toList
    · obtain ⟨name, front, split, last⟩ :=
        List.eq_append_cons_of_mem (List.mem_reverse.2 slash)
      have hsplit : path.toList = front.reverse ++ '/' :: name.reverse := by
        rw [← List.reverse_reverse path.toList, split]
        simp
      have hlast : '/' ∉ name.reverse := fun mem => last (List.mem_reverse.1 mem)
      refine Or.inl ⟨name.reverse, hlast, ?_⟩
      rw [folderOf_of_split hlast hsplit, String.toList_ofList, hsplit]
    · exact Or.inr ⟨slash, folderOf_of_noSlash slash⟩
  · rintro (⟨name, last, split⟩ | ⟨noSlash, rfl⟩)
    · rw [folderOf_of_split last split, String.ofList_toList]
    · exact folderOf_of_noSlash noSlash

namespace FileTable

/-! ### Files -/

/-- The entry of a file. -/
def entryOf (entry : SourceFile × String) : LargestFile :=
  ⟨entry.1.relativePath, Text.lineCount entry.2, entry.1.size⟩

/-- The ranking of files is the beginning of the files that can be read, ranked by lines. -/
theorem exists_ranked_largest (contents : Contents) (files : List SourceFile) :
    ∃ order : List ((SourceFile × String) × Nat),
      Ranking.Ranked (fun entry => Text.lineCount entry.1.2) (readable contents files).zipIdx order ∧
        ∀ asked, (ofFiles contents files asked).largest =
          (order.take (min (Ranking.limit asked standardLength) (readable contents files).length)).map
            fun entry => entryOf entry.1 := by
  obtain ⟨order, ranked, horder⟩ := Ranking.exists_ranked_zipIdx
    (fun entry : SourceFile × String => Text.lineCount entry.2) (readable contents files)
  have hentries : Ranking.descending LargestFile.lines (entries (readable contents files)) =
      order.map fun entry => entryOf entry.1 := by
    calc Ranking.descending LargestFile.lines (entries (readable contents files))
        = (Ranking.descending (fun entry => Text.lineCount entry.2) (readable contents files)).map
            entryOf := (Ranking.map_descending entryOf _).symm
      _ = (order.map Prod.fst).map entryOf := by rw [horder]
      _ = order.map fun entry => entryOf entry.1 := List.map_map ..
  have hlength : order.length = (readable contents files).length := by
    rw [← List.length_map Prod.fst, ← horder, (Ranking.descending_perm _ _).length_eq]
  exact ⟨order, ranked, hlength ▸ Ranking.top_eq_map_take hentries⟩

/-! ### Folders -/

/-- What the texts of a folder have together. -/
def statsOf (texts : List (SourceFile × String)) (folder : String) : FolderStats :=
  let inside := texts.filter fun entry => folderOf entry.1.relativePath = folder
  ⟨folder, inside.length, (inside.map fun entry => Text.lineCount entry.2).sum⟩

/-- The ranking of folders is the beginning of the folders of the files that can be read, ranked by
files. -/
theorem exists_ranked_folders (contents : Contents) (files : List SourceFile) :
    ∃ order : List String,
      Ranking.Ranked (fun folder => (statsOf (readable contents files) folder).fileCount)
          ((readable contents files).map fun entry => folderOf entry.1.relativePath) order ∧
        ∀ asked, (ofFiles contents files asked).folders =
          (order.take (min (Ranking.limit asked standardLength) order.length)).map
            (statsOf (readable contents files)) := by
  have hkey : ∀ folder, (statsOf (readable contents files) folder).path = folder := fun _ => rfl
  have htotals : ∀ weight ∈ [FolderStats.fileCount, FolderStats.totalLines], ∀ folder,
      weight (statsOf (readable contents files) folder) =
        (((entries (readable contents files)).filter fun entry => folderOf entry.path = folder).map
          fun entry => weight (.ofFile (folderOf entry.path) entry.lines)).sum := by
    intro weight mem folder
    simp only [List.mem_cons, List.not_mem_nil, or_false] at mem
    rcases mem with rfl | rfl <;>
      simp [statsOf, FolderStats.ofFile, entries, List.filter_map, Function.comp_def]
  obtain ⟨order, ranked, horder⟩ := addsUp.exists_ranked FolderStats.fileCount hkey htotals
  rw [entries, List.map_map] at ranked
  exact ⟨order, ranked, Ranking.top_eq_map_take horder⟩

end FileTable

/-! ### The table -/

/-- **The rankings.**  The ranking of files begins with the files that can be read, those with more lines
first and files of the same length as they stand in the list; the ranking of folders with the folders of
these files, those with more files first and among equals the one that is seen first, each with all files
in it.  A longer ranking only goes on where a shorter one ends, and no file that is left out is longer than
one that is shown.  The sizes are added up over the files that can be read. -/
theorem rankings_exact (contents : Contents) (files : List SourceFile)
    (hsizes : (files.map SourceFile.size).sum < 2 ^ 64) :
    let texts := readable contents files
    let table := FileTable.ofFiles contents files
    let limit : Nat → Nat := fun top => if top = 0 then 10 else top
    (∃ order : List ((SourceFile × String) × Nat),
      Ranking.Ranked (fun entry => Text.lineCount entry.1.2) texts.zipIdx order ∧
      ∀ top, (table top).largest = (order.take (min (limit top) texts.length)).map (fun entry =>
          ⟨entry.1.1.relativePath, Text.lineCount entry.1.2, entry.1.1.size⟩) ∧
        ∀ listed ∈ order.take (min (limit top) texts.length),
          ∀ omitted ∈ order.drop (min (limit top) texts.length),
            Text.lineCount omitted.1.2 ≤ Text.lineCount listed.1.2) ∧
    (∃ order : List String,
      Ranking.Ranked (fun folder => (FileTable.statsOf texts folder).fileCount)
        (texts.map fun entry => folderOf entry.1.relativePath) order ∧
      ∀ top, (table top).folders =
        (order.take (min (limit top) order.length)).map (FileTable.statsOf texts)) ∧
    (∀ shorter longer, limit shorter ≤ limit longer →
      (table shorter).largest <+: (table longer).largest ∧
        (table shorter).folders <+: (table longer).folders) ∧
    (∀ path folder, folderOf path = folder ↔ IsFolderOf folder path) ∧
    ∀ top, (table top).totalFiles = files.length ∧
      (table top).totalSize = (texts.map fun entry => entry.1.size).sum := by
  intro texts table limit
  obtain ⟨order, ranked, hlargest⟩ := FileTable.exists_ranked_largest contents files
  refine ⟨⟨order, ranked, fun top => ⟨hlargest top, fun listed hlisted omitted homitted => ?_⟩⟩,
    FileTable.exists_ranked_folders contents files, fun shorter longer hle => ?_,
    fun path folder => folderOf_eq_iff, fun top => ⟨?_, ?_⟩⟩
  · exact ranked.weight_le _ hlisted homitted
  · exact ⟨Ranking.top_prefix_top hle, Ranking.top_prefix_top hle⟩
  · exact List.length_map _
  · rw [← FileTable.sum_size_entries]
    exact FileTable.totalSize_ofFiles top hsizes

/-- A longer file of the same folder. -/
def longFile : SourceFile :=
  { path := ⟨[0x64]⟩, relativePath := "src/d.rs", extension := ".rs", label := "Rust", size := 11 }

/-- The texts of the two files. -/
def longContents : Contents := fun path =>
  if path = longFile.path then some "g()\nh()\ni()" else markedContents path

/-- The longer file comes first, and the ranking of folders has both. -/
theorem rankings_exact_long :
    let files := [markedFile, lostFile, longFile]
    let table := FileTable.ofFiles longContents files
    (files.map SourceFile.size).sum < 2 ^ 64 ∧
      (table 1).largest = [⟨"src/d.rs", 3, 11⟩] ∧ (table 1).folders = [⟨"src", 2, 5⟩] ∧
      Text.lineCount "// TODO: x\nf()" ≤ Text.lineCount "g()\nh()\ni()" ∧
      (table 1).largest <+: (table 0).largest ∧ folderOf "src/d.rs" = "src" := by
  intro files table
  have hsizes : (files.map SourceFile.size).sum < 2 ^ 64 := by decide
  obtain ⟨⟨order, ranked, hlargest⟩, ⟨folders, foldersRanked, hfolders⟩, hlonger, hfolder, -⟩ :=
    rankings_exact longContents files hsizes
  have horder : order = [((longFile, "g()\nh()\ni()"), 1), ((markedFile, "// TODO: x\nf()"), 0)] :=
    ranked.unique ⟨by decide, fun key => List.Perm.mem_iff (by decide), by decide⟩
  have hseen : (readable longContents files).map (fun entry => folderOf entry.1.relativePath) =
      ["src", "src"] := by decide
  have hnames : folders = ["src"] :=
    foldersRanked.unique ⟨by decide, fun key => by simp [hseen], by decide⟩
  refine ⟨hsizes, ?_, ?_, ?_, ?_, ?_⟩
  · rw [(hlargest 1).1, horder]
    decide
  · rw [hfolders 1, hnames]
    decide
  · exact (hlargest 1).2 ((longFile, _), 1) (horder ▸ by decide) ((markedFile, _), 0) (horder ▸ by decide)
  · exact (hlonger 1 0 (by decide)).1
  · exact (hfolder _ _).2 (Or.inl ⟨['d', '.', 'r', 's'], by decide, by decide⟩)

end Census

end CodeCensus
