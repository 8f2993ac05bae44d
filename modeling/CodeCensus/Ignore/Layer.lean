import CodeCensus.FileSystem.Resolve
import CodeCensus.Ignore.Rule

/-!
# Ignore files

A directory may hold ignore files of several kinds, and so may the directories around it. Kinds come
first: what a file of an earlier kind says counts whatever the files of later kinds say. Among the
files of one kind those of inner directories come before those of outer ones. The last kind is the ignore
file of the user, which stands outside of all projects and counts in each of them.

A directory that is itself the top of a repository is closed: the rules that repositories have, for
everyone or for one clone, do not reach into it from outside.
-/

namespace CodeCensus.Ignore

open FileSystem (Disk Place)

/-- The kinds of ignore files. -/
inductive Kind where
  /-- The ignore file of this program. -/
  | own
  /-- The ignore file that search tools share. -/
  | shared
  /-- The ignore file of a repository. -/
  | repository
  /-- The ignore file of a clone, which is not part of the repository. -/
  | clone
  /-- The ignore file of the user. -/
  | user
  deriving DecidableEq, Repr

namespace Kind

/-- The kinds in their order. -/
def all : List Kind :=
  [own, shared, repository, clone, user]

/-- Where the file of a kind is in the directory that it belongs to. For a clone this is the usual place.
The file of the user belongs to no directory. -/
def inside? : Kind → Option Path
  | own => some (.ofString ".codestatignore")
  | shared => some (.ofString ".ignore")
  | repository => some (.ofString ".gitignore")
  | clone => some (.ofString ".git/info/exclude")
  | user => none

/-- Whether the rules of a kind end at the top of a repository. -/
def isLocal : Kind → Bool
  | own | shared | user => false
  | repository | clone => true

end Kind

/-! ### The file of a clone -/

/-- The first line of a file, if the file has a line and it is text. -/
def firstLine? (disk : Disk) (path : Path) : Option String := do
  let body ← (disk.read path).toOption
  Text.ofBytes? (← (linesOf body.toList).head?)

/-- What stands in a pointer file in front of the path that it points to. -/
def pointerMark : List UInt8 :=
  "gitdir: ".toUTF8.toList

/-- The path of the ignore file of a clone. If a file stands for the directory of the clone, it points to
that directory, and a file there names the directory that clones have in common. -/
def clonePath? (disk : Disk) (directory : Path) : Option Path :=
  let pointer := directory.join (.ofString ".git")
  if disk.isFile pointer then do
    let line ← firstLine? disk pointer
    guard (pointerMark.isPrefixOf line.toUTF8.toList)
    let inner : Path := ⟨line.toUTF8.toList.drop pointerMark.length⟩
    let common ← firstLine? disk (inner.join (.ofString "commondir"))
    let path := Path.ofString common
    pure ((if path.bytes.head? = some Path.dot then inner.join path else path).join
      (.ofString "info/exclude"))
  else Kind.clone.inside?.map directory.join

/-- The path of the file of a kind in a directory. -/
def Kind.path? (kind : Kind) (disk : Disk) (directory : Path) : Option Path :=
  match kind with
  | .clone => clonePath? disk directory
  | kind => kind.inside?.map directory.join

/-! ### Reading rules -/

/-- The rules in the file at a path; none if there is no path, or no file that can be read. -/
def rulesAt (disk : Disk) (path? : Option Path) : List Rule :=
  match path?.map disk.read with
  | some (.ok body) => rulesOfFile body
  | _ => []

/-- The names by which the rules of a directory know a place. Below the directory these are the names that
lead from there to the place. Any other place is known by its absolute path. -/
def namesFrom (directory place : Place) : List FileName :=
  if directory.isPrefixOf place then place.drop directory.length else [] :: place

/-! ### Layers -/

/-- The rules that count from a directory on. -/
structure Layer where
  directory : Place
  rules : Kind → List Rule
  /-- Whether the directory is the top of a repository. -/
  closed : Bool

/-- The names of what makes a directory the top of a repository. -/
def repositoryMarks : List String :=
  [".git", ".jj"]

/-- The rules in the ignore files of a directory. -/
def Layer.ofDirectory (disk : Disk) (directory : Place) : Layer :=
  let path := FileSystem.pathOf directory
  -- Each file is read when the layer is made, and not each time that it is asked.
  let rulesOf (kind : Kind) : List Rule := rulesAt disk (kind.path? disk path)
  let own := rulesOf .own
  let shared := rulesOf .shared
  let repository := rulesOf .repository
  let clone := rulesOf .clone
  let closed := repositoryMarks.any fun name => disk.exists? (path.join (.ofString name))
  { directory
    closed
    rules := fun
      | .own => own
      | .shared => shared
      | .repository => repository
      | .clone => clone
      | .user => [] }

/-- The rules in the ignore file of the user. -/
def Layer.ofUser (disk : Disk) (userIgnore : FileSystem.UserIgnore) : Layer :=
  let user := rulesAt disk (some userIgnore.file)
  { directory := userIgnore.base
    closed := false
    rules := fun
      | .user => user
      | _ => [] }

/-- What the rules of one kind in a layer say about a place. -/
def Layer.verdict? (layer : Layer) (kind : Kind) (place : Place) (isDirectory : Bool) :
    Option Verdict :=
  Ignore.verdict? (layer.rules kind) (namesFrom layer.directory place) isDirectory

/-- The layers that belong to one repository, from the innermost one on. -/
def inRepository : List Layer → List Layer
  | [] => []
  | layer :: outer => if layer.closed then [layer] else layer :: inRepository outer

/-- What ignore files say about a place, where the layers around it are given from the innermost one
on. -/
def verdictAt? (layers : List Layer) (place : Place) (isDirectory : Bool) : Option Verdict :=
  Kind.all.findSome? fun kind =>
    (if kind.isLocal then inRepository layers else layers).findSome? fun layer =>
      layer.verdict? kind place isDirectory

/-- The layers of a directory and of all directories around it, innermost first, and behind them the layer
of the user. The directories around it count as open: whether they are tops of repositories makes no
difference. -/
def layersAt (disk : Disk) (directory : Place) : List Layer :=
  let around := (List.range directory.length).reverse.map fun depth =>
    { Layer.ofDirectory disk (directory.take depth) with closed := false }
  .ofDirectory disk directory :: around ++ (disk.userIgnore?.map (.ofUser disk)).toList

end CodeCensus.Ignore
