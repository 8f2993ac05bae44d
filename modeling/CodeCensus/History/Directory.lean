import CodeCensus.FileSystem.Resolve
import CodeCensus.History.Bytes

/-!
# Where repositories are

A repository is a directory with a file that says where its head is, and with directories for its objects
and its references. Several repositories may have objects and references in common; then a file in each
of them names the directory where these are.

A project has its repository in a directory inside its own, or a file in its place that points to one. The
repository of a path is found by going from the path up to the root. A directory that is no repository is
passed over on the way, but a pointer that leads to none ends the search.
-/

namespace CodeCensus.History

open FileSystem (Disk Place)

/-- Where the parts of a repository are. -/
structure Directory where
  /-- The place of what belongs to this repository alone. -/
  own : Place
  /-- The place of its objects and references. -/
  common : Place
  deriving DecidableEq, Repr

/-- What is found at a step of the search. -/
inductive Finding where
  | nothing
  | broken
  | repository (directory : Directory)
  deriving DecidableEq, Repr

/-- The name of the directory in which a project has its repository. -/
def gitName : FileName :=
  ".git".toUTF8.toList

/-- The path of something below a place. -/
def pathIn (place : Place) (name : String) : Path :=
  (FileSystem.pathOf place).join (.ofString name)

/-- The place that a file names. A relative path begins at the given place. -/
def named? (disk : Disk) (place : Place) (path : List UInt8) : Option Place :=
  (FileSystem.resolve disk.root disk.working .follow
    ((FileSystem.pathOf place).join ⟨untilZero path⟩)).toOption

/-- Where the objects and references of the repository at a place are. -/
def commonOf? (disk : Disk) (place : Place) : Option Place :=
  match disk.read (pathIn place "commondir") with
  | .ok body => named? disk place (trimEnd body.toList)
  | .error _ => some place

/-- Whether there is a repository in the directory at a place. -/
def directoryAt (disk : Disk) (place : Place) : Finding :=
  match commonOf? disk place with
  | none => .broken
  | some common =>
    if disk.isFile (pathIn place "HEAD") && disk.isDirectory (pathIn common "objects") &&
        disk.isDirectory (pathIn common "refs") then .repository ⟨place, common⟩
    else .nothing

/-- What a file begins with that points to a repository. -/
def pointerMark : List UInt8 :=
  "gitdir:".toUTF8.toList

/-- The repository that a file in the directory at a place points to. -/
def pointedTo (disk : Disk) (place : Place) (body : List UInt8) : Finding :=
  let text := trimEnd body
  if pointerMark.isPrefixOf text && pointerMark.length < text.length then
    match named? disk place ((text.drop pointerMark.length).dropWhile isSpace) with
    | none => .broken
    | some target =>
      match directoryAt disk target with
      | .repository directory => .repository directory
      | _ => .broken
  else .broken

/-- What is found in the place of the repository of the project at a place. -/
def insideOf (disk : Disk) (place : Place) : Finding :=
  let path := (FileSystem.pathOf place).child gitName
  match FileSystem.resolve disk.root disk.working .follow path with
  | .error _ => .nothing
  | .ok target =>
    match disk.root.at? target with
    | some (.directory _) => directoryAt disk target
    | some (.file body) => pointedTo disk place body.toList
    | _ => .nothing

/-- What is found at a place itself. -/
def itself (disk : Disk) (place : Place) : Finding :=
  match disk.root.at? place with
  | some (.directory _) => directoryAt disk place
  | some (.file body) =>
    if place.getLast? = some gitName then pointedTo disk place.dropLast body.toList else .nothing
  | _ => .nothing

/-- The first repository among some findings, if nothing broken comes before it. -/
def firstOf : List Finding → Option Directory
  | [] => none
  | .nothing :: rest => firstOf rest
  | .broken :: _ => none
  | .repository directory :: _ => some directory

/-- What is found at a place, first inside it and then at the place itself. -/
def findingsAt (disk : Disk) (place : Place) : List Finding :=
  [insideOf disk place, itself disk place]

/-- The repository of a path. A repository may have one in its own directory, which then comes first. -/
def directoryOf? (disk : Disk) (path : Path) : Option Directory := do
  let start ← (FileSystem.resolve disk.root disk.working .follow path).toOption
  let above := (List.range start.length).reverse.map fun depth => start.take (depth + 1)
  let directory ← firstOf (above.flatMap (findingsAt disk))
  firstOf (findingsAt disk directory.own)

end CodeCensus.History
