import CodeCensus.Path

/-!
# Source files

What is known about a file before its contents are looked at, and the contents themselves as the
tables of a census see them: a function from paths that has no answer for a file that cannot be read.
-/

namespace CodeCensus

/-- A file that takes part in a census. -/
structure SourceFile where
  /-- Where the file is. -/
  path : Path
  /-- Its path from the directory that is examined, with slashes. -/
  relativePath : String
  /-- Its extension with the dot, or nothing. -/
  extension : String
  /-- The language it is counted under. -/
  label : String
  /-- Its size in bytes. -/
  size : Nat
  deriving DecidableEq, Repr

/-- The text at each path, where there is a text. -/
abbrev Contents := Path → Option String

/-- Some files, each with the text that was found when it was read, if there was one. -/
abbrev Answers := List (SourceFile × Option String)

/-- What is found for some files. -/
def answers (contents : Contents) (files : List SourceFile) : Answers :=
  files.map fun file => (file, contents file.path)

/-- The files that could be read, in order, each with its text. -/
def Answers.texts (answers : Answers) : List (SourceFile × String) :=
  answers.filterMap fun (file, text?) => text?.map (file, ·)

/-- The files that can be read, in order, each with its text. -/
def readable (contents : Contents) (files : List SourceFile) : List (SourceFile × String) :=
  (answers contents files).texts

end CodeCensus
