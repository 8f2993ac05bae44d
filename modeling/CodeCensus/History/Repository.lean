import CodeCensus.History.Author
import CodeCensus.History.Changes
import CodeCensus.History.References
import CodeCensus.History.Settings
import CodeCensus.History.Summary

/-!
# Repositories

A repository holds commits under their identifiers, and references that point to some of them. The
history of a project is what can be reached from its head over parents: the head itself, its parents,
their parents and so on, each commit once.

The commits do not settle everything about the way in which a history is read. In which order commits of
one time are visited, in which order the contributors stand in the table that they are counted in, and how
many files a new file is compared with, is given to the repository (`Reading`), and what is shown of a
history is shown for every such way.
-/

namespace CodeCensus.History

/-- A commit. -/
structure Commit where
  author : Signature
  committer : Signature
  parents : List CommitId
  /-- The files of the commit, unless they are lost. -/
  files? : Option Files

/-! ### Ways to read a history -/

/-- An order in which commits are visited. All of them are, and those with the latest committer time come
first; how commits of one time follow each other is left open, since a heap decides it. -/
structure Itinerary where
  arrange : List Commit → List Commit
  perm : ∀ commits, (arrange commits).Perm commits
  latestFirst : ∀ commits, (arrange commits).Pairwise fun a b => b.committer.time ≤ a.committer.time

/-- Commits of one time are visited in the order in which they are met. -/
def Itinerary.stable : Itinerary where
  arrange commits := commits.mergeSort fun a b => b.committer.time ≤ a.committer.time
  perm commits := List.mergeSort_perm commits _
  latestFirst commits := by
    refine (List.pairwise_mergeSort ?_ ?_ commits).imp of_decide_eq_true
    · intro a b c hab hbc
      exact decide_eq_true (Int.le_trans (of_decide_eq_true hbc) (of_decide_eq_true hab))
    · intro a b
      rw [Bool.or_eq_true, decide_eq_true_iff, decide_eq_true_iff]
      exact Int.le_total b.committer.time a.committer.time

/-- An order in which the contributors are taken from the table that they are counted in. The table is
hashed, and each run of a program hashes in its own way, so nothing is known of this order. -/
structure Enumeration where
  arrange : List Contributor → List Contributor
  perm : ∀ contributors, (arrange contributors).Perm contributors

/-- The contributors are taken in the order in which they are met. -/
def Enumeration.asMet : Enumeration where
  arrange contributors := contributors
  perm := List.Perm.refl

/-- What the commits leave open about the way in which a history is read. -/
structure Reading where
  itinerary : Itinerary := .stable
  enumeration : Enumeration := .asMet
  /-- A new file is compared with one more than so many files that are gone. -/
  renameLimit : Nat := 1000

/-- A repository. -/
structure Repository where
  commits : List (CommitId × Commit) := []
  head? : Option CommitId := none
  /-- The names of all references. -/
  references : List ReferenceName := []
  /-- The way in which its history is read. -/
  reading : Reading := {}

namespace Repository

/-- The commit of an identifier, unless it is lost. -/
def find? (repository : Repository) (id : CommitId) : Option Commit :=
  repository.commits.lookup id

/-- What the names of branches begin with, in this repository and in others. -/
def branchFronts : List ReferenceName :=
  ["refs/heads/".toUTF8.toList, "refs/remotes/".toUTF8.toList]

/-- The number of branches, those of other repositories included. -/
def branches (repository : Repository) : Nat :=
  repository.references.countP fun name => branchFronts.any fun front => front.isPrefixOf name

/-! ### Reaching commits -/

/-- The commits whose identifiers have not been seen. -/
def unseen (repository : Repository) (seen : List CommitId) : List (CommitId × Commit) :=
  repository.commits.filter fun (id, _) => !seen.contains id

/-- Each commit that is seen for the first time leaves fewer to be seen, so the walk comes to an end. -/
theorem unseen_length_lt {repository : Repository} {seen : List CommitId} {id : CommitId}
    {commit : Commit} (found : repository.find? id = some commit) (new : id ∉ seen) :
    (repository.unseen (id :: seen)).length < (repository.unseen seen).length := by
  have split : repository.unseen (id :: seen) =
      (repository.unseen seen).filter fun (other, _) => other != id := by
    simp only [unseen, List.filter_filter]
    refine List.filter_congr ?_
    rintro ⟨other, _⟩ -
    by_cases same : other = id <;> simp [same]
  rw [split, List.length_filter_lt_length_iff_exists]
  obtain ⟨before, after, eq, -⟩ := List.lookup_eq_some_iff.1 found
  refine ⟨(id, commit), ?_, by simp⟩
  simp [unseen, eq, new]

/-- Collect commits from some identifiers on, in the order in which they are met; nothing if one of them
is lost. -/
def collect (repository : Repository) (seen : List CommitId) :
    List CommitId → Option (List Commit)
  | [] => some []
  | id :: rest =>
    if known : id ∈ seen then collect repository seen rest
    else
      match found : repository.find? id with
      | none => none
      | some commit =>
        have := unseen_length_lt found known
        (collect repository (id :: seen) (commit.parents ++ rest)).map (commit :: ·)
termination_by ids => ((repository.unseen seen).length, ids.length)

/-- The commits that can be reached from the head, in the order in which they are visited; nothing if one
of them is lost. -/
def walk? (repository : Repository) : Option (List Commit) := do
  let head ← repository.head?
  let commits ← repository.collect [] [head]
  pure (repository.reading.itinerary.arrange commits)

/-! ### Changes -/

/-- The paths that a commit changes, unless files are lost that would have to be compared. A commit
with several parents changes nothing by itself. -/
def changes? (repository : Repository) (commit : Commit) : Option (List (List UInt8)) :=
  if 1 < commit.parents.length then some []
  else do
    let new ← commit.files?
    match commit.parents.head?.bind repository.find? with
    | none => pure (changedPaths repository.reading.renameLimit [] new)
    | some parent => pure (changedPaths repository.reading.renameLimit (← parent.files?) new)

end Repository

/-! ### Repositories on a disk -/

/-- The commits that are known, the place of the directory that has them among its objects, and the way in
which their history is read. -/
structure Objects where
  place : FileSystem.Place
  commits : List (CommitId × Commit)
  reading : Reading := {}

/-- The commits among the objects of a repository. -/
def commitsOf (disk : FileSystem.Disk) (objects? : Option Objects) (directory : Directory) :
    List (CommitId × Commit) :=
  match objects?, FileSystem.resolve disk.root disk.working .follow (pathIn directory.common "objects") with
  | some objects, .ok place => if objects.place = place then objects.commits else []
  | _, _ => []

/-- The repository that a path leads to or into, if it can be used. -/
def repositoryOf? (disk : FileSystem.Disk) (objects? : Option Objects) (path : Path) :
    Option Repository :=
  ((directoryOf? disk path).filter (·.isUsable disk)).map fun directory =>
    { commits := commitsOf disk objects? directory
      head? := directory.head? disk
      references := directory.references disk
      reading := (objects?.map Objects.reading).getD {} }

end CodeCensus.History
