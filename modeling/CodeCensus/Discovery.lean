import CodeCensus.Census.SourceFile
import CodeCensus.Ignore.Layer
import CodeCensus.Language
import CodeCensus.Text.Search

/-!
# Finding the files of a project

The files below a directory take part in a census, except those that are passed over. An entry is
passed over if an exclude pattern fits it; or else if an ignore file says so; or else if its name begins
with a dot and no ignore file keeps it. What is inside a directory that is passed over is passed over
with it. Links are not followed.
-/

namespace CodeCensus.Discovery

open FileSystem (Disk Place Tree Entry)
open Ignore (Rule Layer)

/-- Which files to find. -/
structure Options where
  /-- Patterns of what to pass over. -/
  exclude : List String := []
  /-- Parts of the labels of which one has to occur; none if every label will do. -/
  languages : List String := []
  deriving DecidableEq, Repr

/-! ### Exclude patterns -/

/-- Why exclude patterns cannot be used. -/
inductive PatternFault where
  /-- A pattern cannot be read. -/
  | invalid (pattern : String)
  /-- A pattern is too deep for matching. -/
  | tooDeep
  deriving DecidableEq, Repr

/-- What is said about exclude patterns that cannot be used. -/
def PatternFault.message : PatternFault → String
  | invalid pattern => "Invalid exclude pattern '" ++ pattern ++ "'"
  | tooDeep => "Failed to build exclude patterns"

/-- What stands in front of a slash and two stars at the end of a pattern. -/
def directoryOf? (pattern : List Char) : Option (List Char) :=
  if ['/', '*', '*'].isSuffixOf pattern then some (pattern.take (pattern.length - 3)) else none

/-- The lines that an exclude pattern stands for. An exclamation mark makes each of them a rule about
what to pass over. A pattern for everything inside a directory would leave the directory itself to be
searched; so the directory is passed over too. -/
def linesOf (pattern : List Char) : List (List Char) :=
  (pattern :: (directoryOf? pattern).toList).map ('!' :: ·)

/-- The rules that an exclude pattern stands for. -/
def rulesOfPattern (pattern : String) : Except PatternFault (List Rule) :=
  match (linesOf pattern.toList).mapM (Rule.ofLine .strict) with
  | .ok rules => .ok (rules.filterMap id)
  | .error _ => .error (.invalid pattern)

/-- The rules that exclude patterns stand for. -/
def rulesOfPatterns (patterns : List String) : Except PatternFault (List Rule) := do
  let rules := (← patterns.mapM rulesOfPattern).flatten
  if Ignore.applicable rules then pure rules else throw .tooDeep

/-! ### What is passed over -/

/-- Whether a name is hidden. -/
def isHidden (name : FileName) : Bool :=
  name.head? == some Path.dot

/-- Whether an entry is passed over: the exclude patterns say so, or else the ignore files, or else it is
hidden. -/
def skips (exclude : List Rule) (layers : List Layer) (root : Place) (place : Place)
    (isDirectory : Bool) : Bool :=
  let excluded? := Ignore.overrideAt? exclude (place.drop root.length) isDirectory
  match excluded?.or (Ignore.verdictAt? layers place isDirectory) with
  | some .skip => true
  | some .keep => false
  | none => (place.getLast?.map isHidden).getD false

/-- The files below a directory that are not passed over, with their places. -/
def found (disk : Disk) (exclude : List Rule) (root : Place) (layers : List Layer) (above : Place) :
    Tree → List (Place × ByteArray)
  | .empty => []
  | .file name body rest =>
    let others := found disk exclude root layers above rest
    if skips exclude layers root (above ++ [name]) false then others
    else (above ++ [name], body) :: others
  | .link _ _ rest => found disk exclude root layers above rest
  | .directory name inside rest =>
    let others := found disk exclude root layers above rest
    if skips exclude layers root (above ++ [name]) true then others
    else
      found disk exclude root (.ofDirectory disk (above ++ [name]) :: layers) (above ++ [name]) inside
        ++ others

/-! ### Source files -/

/-- The extension of a path as text. An extension that is not valid UTF-8 counts for none. -/
def extensionText? (path : Path) : Option String :=
  path.extension?.bind Text.ofBytes?

/-- The label of the language that a file is written in. -/
def labelOf (path : Path) : String :=
  if path.fileName? = some (Path.ofString "Dockerfile").bytes then "Dockerfile"
  else Language.ofExtension ((extensionText? path).getD "")

/-- The source file at a path. -/
def sourceFile (root path : Path) (body : ByteArray) : SourceFile :=
  { path
    relativePath := Path.relativeTo root path
    extension := ((extensionText? path).map ("." ++ ·)).getD ""
    label := labelOf path
    size := body.size }

/-- The source files below a path, or at it if it leads to a file. A link to a directory is followed
here and nowhere else. -/
def sourceFiles (disk : Disk) (exclude : List Rule) (root : Path) : List SourceFile :=
  match FileSystem.resolve disk.root disk.working .keep root,
    FileSystem.resolve disk.root disk.working .follow root with
  | .ok place, .ok target =>
    match disk.root.at? place, disk.root.at? target with
    | some (.file body), _ => [sourceFile root root body]
    | _, some (.directory inside) =>
      (found disk exclude target (Ignore.layersAt disk target) target inside).map fun (place, body) =>
        sourceFile root ((place.drop target.length).foldl Path.child root) body
    | _, _ => []
  | _, _ => []

/-! ### Languages -/

/-- The parts of labels that are asked for, without blanks around them and whatever their case. -/
def wanted (languages : List String) : List (List Char) :=
  (languages.map fun language => (Text.fold (String.ofList (Text.trim language.toList))).toList).filter
    (!·.isEmpty)

/-- Whether the label of a file is asked for. -/
def isWanted (languages : List String) (file : SourceFile) : Bool :=
  (wanted languages).isEmpty ||
    (wanted languages).any fun part => Text.occursIn part (Text.fold file.label).toList

/-! ### The files of a project -/

/-- The files below a path that are not passed over and whose language is asked for, in the order of
their paths. -/
def files (disk : Disk) (root : Path) (options : Options) :
    Except PatternFault (List SourceFile) := do
  let exclude ← rulesOfPatterns options.exclude
  pure <| ((sourceFiles disk exclude root).filter (isWanted options.languages)).mergeSort
    fun a b => a.relativePath ≤ b.relativePath

end CodeCensus.Discovery
