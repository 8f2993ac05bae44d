import CodeCensus.Census.SourceFile
import CodeCensus.FileSystem.Resolve
import Std.Data.HashMap

/-!
# Snapshots of file contents

The tables of a census all look at the same files, and they have to see the same contents even if the
files change meanwhile. So what is read once is kept: a snapshot remembers for every path the text that
was found there, or that there was none. Reading is a look-up and, if the path is new, an insertion;
an insertion leaves what is already there as it is, so it does not matter who comes first.
-/

namespace CodeCensus

/-- The contents found so far. Paths with the same parts are one path. -/
structure Snapshot where
  entries : Std.HashMap (List Path.Part) (Option String) := {}

namespace Snapshot

/-- What was found at a path, if it has been looked at. -/
def find? (snapshot : Snapshot) (path : Path) : Option (Option String) :=
  snapshot.entries[path.parts]?

/-- Keep what is found at a path, unless something is kept for it already. -/
def insertIfNew (snapshot : Snapshot) (path : Path) (found : Option String) : Snapshot :=
  ⟨snapshot.entries.insertIfNew path.parts found⟩

/-- The number of paths that have been looked at. -/
def size (snapshot : Snapshot) : Nat :=
  snapshot.entries.size

/-- The text at a path on a disk, if there is one. -/
def onDisk (disk : FileSystem.Disk) (path : Path) : Option String :=
  (disk.readText path).toOption

/-- Read a path: what is kept for it, or else what is found on the disk. -/
def read (snapshot : Snapshot) (disk : FileSystem.Disk) (path : Path) :
    Option String × Snapshot :=
  match snapshot.find? path with
  | some kept => (kept, snapshot)
  | none =>
    let found := onDisk disk path
    (found, snapshot.insertIfNew path found)

/-- The snapshot of some files on a disk. -/
def ofFiles (disk : FileSystem.Disk) (files : List SourceFile) : Snapshot :=
  files.foldl (fun snapshot file => (snapshot.read disk file.path).2) {}

/-- The contents that a snapshot holds. -/
def contents (snapshot : Snapshot) : Contents :=
  fun path => (snapshot.find? path).join

end Snapshot

end CodeCensus
