import CodeCensus.Census.SourceFile
import CodeCensus.Ranking
import CodeCensus.Text.Lines

/-!
# Largest files and fullest folders

The readable files ranked by their number of lines, and their folders ranked by the number of files
in them. Files that cannot be read are counted once, in the number of all files, and nowhere else.
-/

namespace CodeCensus.Census

/-! ### Entries of the two rankings -/

/-- A file in the ranking by lines. -/
structure LargestFile where
  path : String
  lines : Nat := 0
  size : Nat := 0
  deriving DecidableEq, Repr

/-- A folder in the ranking by files. The folder that is examined has the empty path. -/
structure FolderStats where
  path : String
  fileCount : Nat := 0
  totalLines : Nat := 0
  deriving DecidableEq, Repr

namespace FolderStats

/-- The path of a folder as it is shown. -/
def displayPath (folder : FolderStats) : String :=
  if folder.path.isEmpty then "." else folder.path

/-- A folder with one file of the given length. -/
def ofFile (path : String) (lines : Nat) : FolderStats :=
  ⟨path, 1, lines⟩

/-- Add one more file. -/
def addFile (folder : FolderStats) (lines : Nat) : FolderStats :=
  { folder with fileCount := folder.fileCount + 1, totalLines := folder.totalLines + lines }

end FolderStats

/-- The folder of a relative path: what stands before its last slash. -/
def folderOf (relativePath : String) : String :=
  String.ofList ((relativePath.toList.reverse.dropWhile (· != '/')).drop 1).reverse

/-! ### The table -/

/-- Sizes are added up in 64 bits. -/
def addSizes (a b : Nat) : Nat :=
  (a + b) % Nat.pow 2 64

/-- The two rankings and the number and size of all files. -/
structure FileTable where
  largest : List LargestFile := []
  folders : List FolderStats := []
  totalFiles : Nat := 0
  totalSize : Nat := 0
  deriving DecidableEq, Repr

namespace FileTable

/-- The length of both rankings where none is asked for. -/
def standardLength : Nat := 10

/-- The entries of some texts, in order. -/
def entries (texts : List (SourceFile × String)) : List LargestFile :=
  texts.map fun (file, text) =>
    ⟨file.relativePath, Text.lineCount text, file.size⟩

/-- The folders of some files, in the order in which they are first seen. -/
def foldersOf (entries : List LargestFile) : List FolderStats :=
  Ranking.gather FolderStats.path (fun entry => folderOf entry.path)
    (fun entry => .ofFile (folderOf entry.path) entry.lines)
    (fun entry folder => folder.addFile entry.lines) entries

/-- The table for what was found in some files, with rankings of the given length. -/
def ofAnswers (answers : Answers) (length : Nat) : FileTable :=
  let entries := entries answers.texts
  { largest := Ranking.top length standardLength LargestFile.lines entries
    folders := Ranking.top length standardLength FolderStats.fileCount (foldersOf entries)
    totalFiles := answers.length
    totalSize := (entries.map LargestFile.size).foldl addSizes 0 }

/-- The table for a list of files, with rankings of the given length. -/
def ofFiles (contents : Contents) (files : List SourceFile) (length : Nat) : FileTable :=
  ofAnswers (answers contents files) length

end FileTable

end CodeCensus.Census
