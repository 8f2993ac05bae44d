import CodeCensus.History.Files
import CodeCensus.History.Similarity

/-!
# What a commit changes

The difference between the files of two commits, path by path. A file that is gone and one that is new
are taken for one file with another name if they are similar enough; such a file counts once, under its
new name. No file is matched twice, and a pair that is more similar comes before one that is less. A new
file is compared with the files that are gone in the order of their paths, until a limit is exceeded.
-/

namespace CodeCensus.History

/-- A difference at one path. -/
inductive Delta where
  | added (path : List UInt8) (blob : Blob)
  | deleted (path : List UInt8) (blob : Blob)
  | modified (path : List UInt8)

namespace Delta

/-- The path of a difference. -/
def path : Delta → List UInt8
  | added path _ => path
  | deleted path _ => path
  | modified path => path

/-- A file that is new. -/
def added? : Delta → Option (List UInt8 × Blob)
  | added path blob => some (path, blob)
  | _ => none

/-- A file that is gone. -/
def deleted? : Delta → Option (List UInt8 × Blob)
  | deleted path blob => some (path, blob)
  | _ => none

end Delta

/-- The difference at a path of the old files. -/
def deltaOf? (new : Files) : List UInt8 × Blob → Option Delta
  | (path, blob) =>
    match new.lookup path with
    | none => some (.deleted path blob)
    | some now => if now = blob then none else some (.modified path)

/-- The differences between two collections of files, in the order of their paths. -/
def deltas (old new : Files) : List Delta :=
  let atOld := old.filterMap (deltaOf? new)
  let atNew := (new.filter fun (path, _) => (old.lookup path).isNone).map fun (path, blob) =>
    Delta.added path blob
  (atOld ++ atNew).mergeSort fun a b => a.path ≤ b.path

/-! ### Renames -/

/-- A file that may have got a new name. -/
structure Rename where
  source : List UInt8
  target : List UInt8
  similarity : Nat
  deriving DecidableEq, Repr

/-- Whether two pairs have a file in common. -/
def Rename.meets (a b : Rename) : Bool :=
  a.source = b.source || a.target = b.target

/-- A file that is gone with a file that is new, if the two can be compared. -/
def Rename.between? (target source : Sketch) : Option Rename :=
  (source.similarity? target).map fun percent => ⟨source.path, target.path, percent⟩

/-- The pairs of a file that is new and one that is gone, if they have anything in common. A new file is
compared with one file more than the limit says. -/
def candidates (limit : Nat) (deltas : List Delta) : List Rename :=
  let sources := (deltas.filterMap Delta.deleted?).map fun (path, blob) => Sketch.of path blob.body
  if sources.isEmpty then []
  else
    (deltas.filterMap Delta.added?).flatMap fun (path, blob) =>
      let compared := (sources.filterMap (Rename.between? (Sketch.of path blob.body))).take (limit + 1)
      compared.filter (0 < ·.similarity)

/-- Take a pair if it is more similar than every pair that it meets, which it then takes the place of.
Also says whether a pair had to go. -/
def take : List Rename × Bool → Rename → List Rename × Bool
  | (taken, bumped), pair =>
    let rivals := taken.filter (·.meets pair)
    if rivals.all (·.similarity < pair.similarity) then
      (taken.filter (!·.meets pair) ++ [pair], bumped || !rivals.isEmpty)
    else (taken, bumped)

/-- Go through all pairs again and again, until none has to go any more. -/
def settle (pairs : List Rename) : Nat → List Rename → List Rename
  | 0, taken => taken
  | rounds + 1, taken =>
    match pairs.foldl take (taken, false) with
    | (taken, true) => settle pairs rounds taken
    | (taken, false) => taken

/-- As many rounds as can be needed. A pair of the highest similarity is never bumped, so after the first
round all such pairs are settled, after the second round those of the next similarity, and so on. -/
def maxRounds : Nat := 102

/-- The least similarity of a renamed file in percent. -/
def renameThreshold : Nat := 50

/-- The files that got a new name. -/
def renames (limit : Nat) (deltas : List Delta) : List Rename :=
  (settle (candidates limit deltas) maxRounds []).filter (renameThreshold ≤ ·.similarity)

/-- The paths at which two collections of files differ, without the old paths of renamed files. -/
def changedPaths (limit : Nat) (old new : Files) : List (List UInt8) :=
  let found := deltas old new
  let sources := (renames limit found).map Rename.source
  (found.filter fun delta => delta.deleted?.isNone || !sources.contains delta.path).map Delta.path

end CodeCensus.History
