import CodeCensus.FileSystem.Tree
import CodeCensus.Text.Utf8

/-!
# Following paths

A path is followed from name to name, starting at the root or at the working directory. A symbolic
link on the way is replaced by its target, at most forty times for one path. The result is a place:
the names that lead from the root to what is meant, without links and dots.
-/

namespace CodeCensus.FileSystem

/-! ### Faults -/

/-- Why a path cannot be followed or what it leads to cannot be used. -/
inductive Fault where
  | notFound
  | notDirectory
  | isDirectory
  | tooManyLinks
  | nameTooLong
  | zeroByte
  | notText
  deriving DecidableEq, Repr

/-- What the system says about a fault. -/
def Fault.message : Fault → String
  | notFound => "No such file or directory (os error 2)"
  | notDirectory => "Not a directory (os error 20)"
  | isDirectory => "Is a directory (os error 21)"
  | tooManyLinks => "Too many levels of symbolic links (os error 40)"
  | nameTooLong => "File name too long (os error 36)"
  | zeroByte => "file name contained an unexpected NUL byte"
  | notText => "stream did not contain valid UTF-8"

/-! ### Places -/

/-- A place in a file system: the names that lead to it from the root. -/
abbrev Place := List FileName

/-- The most links that are followed for one path. -/
def maxLinks : Nat := 40

/-- The longest name, and the length that a path may not reach. -/
def maxName : Nat := 255

@[inherit_doc maxName]
def maxPath : Nat := 4096

/-- What to do with the last name of a path. -/
inductive Ending where
  /-- Follow it if it is a link. -/
  | follow
  /-- Take it as it is. -/
  | keep
  /-- Follow it if it is a link, and accept it if nothing stands there. -/
  | create
  deriving DecidableEq, Repr

/-- Follow the segments of a path from a place. -/
def walk (root : Tree) (ending : Ending) (links : Nat) (here : Place) :
    List FileName → Except Fault Place
  | [] => .ok here
  | segment :: rest =>
    match root.at? here with
    | some (.directory inside) =>
      if segment = [] ∨ segment = [Path.dot] then walk root ending links here rest
      else if segment = [Path.dot, Path.dot] then walk root ending links here.dropLast rest
      else if maxName < segment.length then .error .nameTooLong
      else
        match inside.find? segment with
        | some (.link target) =>
          if rest = [] ∧ ending = .keep then .ok (here ++ [segment])
          else
            match links with
            | 0 => .error .tooManyLinks
            | links + 1 =>
              walk root ending links (if target.isAbsolute then [] else here)
                (target.segments ++ rest)
        | some _ => walk root ending links (here ++ [segment]) rest
        | none =>
          if rest = [] ∧ ending = .create then .ok (here ++ [segment]) else .error .notFound
    | _ => .error .notDirectory
termination_by segments => (links, segments.length)

/-- The place that a path leads to from a working directory. -/
def resolve (root : Tree) (working : Place) (ending : Ending) (path : Path) :
    Except Fault Place :=
  if path.bytes = [] then .error .notFound
  else if path.bytes.contains 0 then .error .zeroByte
  else if maxPath ≤ path.bytes.length then .error .nameTooLong
  else walk root ending maxLinks (if path.isAbsolute then [] else working) path.segments

/-- The absolute path of a place. -/
def pathOf (place : Place) : Path :=
  if place = [] then ⟨[Path.slash]⟩ else ⟨place.flatMap (Path.slash :: ·)⟩

/-! ### Disks -/

/-- The ignore file that a user has for all projects. Where it is found is a setting of the user. -/
structure UserIgnore where
  file : Path
  /-- The directory from which its rules count. -/
  base : Place

/-- A file system as a program sees it: everything below the root, the working directory, and the ignore
file of the user, if there is one. -/
structure Disk where
  root : Tree
  working : Place
  userIgnore? : Option UserIgnore := none

namespace Disk

/-- What a path leads to. -/
def entry? (disk : Disk) (path : Path) : Except Fault Entry := do
  let place ← resolve disk.root disk.working .follow path
  match disk.root.at? place with
  | some entry => pure entry
  | none => throw .notFound

/-- Whether a path leads to anything. -/
def exists? (disk : Disk) (path : Path) : Bool :=
  (disk.entry? path).isOk

/-- Whether a path leads to a file. -/
def isFile (disk : Disk) (path : Path) : Bool :=
  match disk.entry? path with
  | .ok (.file _) => true
  | _ => false

/-- Whether a path leads to a directory. -/
def isDirectory (disk : Disk) (path : Path) : Bool :=
  match disk.entry? path with
  | .ok (.directory _) => true
  | _ => false

/-- The bytes of the file that a path leads to. -/
def read (disk : Disk) (path : Path) : Except Fault ByteArray := do
  match ← disk.entry? path with
  | .file body => pure body
  | .directory _ => throw .isDirectory
  | .link _ => throw .tooManyLinks

/-- The text of the file that a path leads to. -/
def readText (disk : Disk) (path : Path) : Except Fault String := do
  match Text.ofUtf8? (← disk.read path) with
  | some text => pure text
  | none => throw .notText

/-- Write the file that a path leads to, and make it if there is none. -/
def write (disk : Disk) (path : Path) (body : ByteArray) : Except Fault Disk := do
  let place ← resolve disk.root disk.working .create path
  match disk.root.at? place with
  | some (.directory _) => throw .isDirectory
  | _ => pure { disk with root := disk.root.putAt place (.file body) }

end Disk

end CodeCensus.FileSystem
