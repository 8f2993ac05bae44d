import CodeCensus.Proofs.History.Counting
import Mathlib

/-!
# Summaries of histories that cannot be read to the end

The changes of a commit may be lost although the commit is there.  A walk over the history is then
interrupted at this commit, which is counted before its changes are looked at.  So there are two lists
to speak of: the commits that are counted (`Repository.counted`), and those of them whose changes have
been read (`Repository.wholeCommits`); the first list is longer by one.

`Summary.Describes` says what a summary of an interrupted walk would have to be: every table is made
from the commits that are counted.  The tables are not made, though, if the walk is interrupted.  What
remains is the number of commits, and so a summary describes what it counts if and only if the history
can be read to the end (`summary_describes_iff`).
-/

namespace CodeCensus.History

open Calendar (Instant)

variable {repository : Repository} {commits : List Commit} {top : Nat} {now : Instant}

/-! ### Interrupted walks -/

namespace Repository

/-- The commits of a walk before the first one whose changes are lost. -/
def wholeCommits (repository : Repository) (commits : List Commit) : List Commit :=
  commits.takeWhile fun commit => (repository.changes? commit).isSome

/-- The commits of a walk up to the first one whose changes are lost, and with it. -/
def counted (repository : Repository) (commits : List Commit) : List Commit :=
  commits.take ((repository.wholeCommits commits).length + 1)

/-- Where nothing is lost, all commits are whole. -/
theorem wholeCommits_eq_self (whole : ∀ commit ∈ commits, (repository.changes? commit).isSome) :
    repository.wholeCommits commits = commits :=
  List.takeWhile_eq_self_iff.2 whole

/-- Where nothing is lost, all commits are counted. -/
theorem counted_eq_self (whole : ∀ commit ∈ commits, (repository.changes? commit).isSome) :
    repository.counted commits = commits := by
  unfold counted
  rw [wholeCommits_eq_self whole]
  exact List.take_of_length_le (Nat.le_succ _)

/-- Where changes are lost, one commit more is counted than has its changes read. -/
theorem length_counted (lost : ∃ commit ∈ commits, ¬ (repository.changes? commit).isSome) :
    (repository.counted commits).length = (repository.wholeCommits commits).length + 1 := by
  obtain ⟨commit, mem, hcommit⟩ := lost
  have hsub : repository.wholeCommits commits <+: commits := List.takeWhile_prefix _
  have hne : (repository.wholeCommits commits).length ≠ commits.length := by
    intro same
    have hall := hsub.eq_of_length same
    exact hcommit (List.takeWhile_eq_self_iff.1 hall commit mem)
  have hle := hsub.length_le
  rw [counted, List.length_take]
  omega

/-- Where the changes of all commits are there, they are those of each commit. -/
theorem mapM_changes? {changes : List (List (List UInt8))}
    (hchanges : commits.mapM repository.changes? = some changes) :
    commits.filterMap repository.changes? = changes := by
  induction commits generalizing changes with
  | nil => simpa using hchanges
  | cons commit rest ih =>
    rw [List.mapM_cons] at hchanges
    obtain ⟨first, hfirst, hchanges⟩ := Option.bind_eq_some_iff.1 hchanges
    obtain ⟨others, hothers, hchanges⟩ := Option.bind_eq_some_iff.1 hchanges
    cases hchanges
    rw [List.filterMap_cons_some hfirst, ih hothers]

/-- A walked history can be read if and only if the changes of each of its commits are there. -/
theorem isReadable_iff_of_walk? (walked : repository.walk? = some commits) :
    repository.IsReadable ↔ ∀ commit ∈ commits, (repository.changes? commit).isSome := by
  obtain ⟨_, _, hhead, _, _⟩ := walk?_eq_some_iff.1 walked
  rw [isReadable_iff hhead, ← isSome_mapM_iff]
  constructor
  · rintro ⟨others, hothers, changed⟩
    cases walked.symm.trans hothers
    exact changed
  · intro changed
    exact ⟨commits, walked, changed⟩

end Repository

/-! ### What a summary would have to be -/

/-- A summary describes some commits if it counts them and each of its tables is made from them, the
table of files from the given changes. -/
structure Summary.Describes (summary : Summary) (top : Nat) (now : Instant) (commits : List Commit)
    (changes : List (List (List UInt8))) : Prop where
  total : summary.totalCommits = commits.length
  contributors : (summary.contributors.map Contributor.commits).sum = summary.totalCommits
  activity : summary.recentActivity =
    activityOf ((commits.filter (isRecent now)).map (·.author.time))
  first : summary.firstCommit = (authorTimes commits).min?.map Calendar.dateText
  last : summary.lastCommit = (authorTimes commits).max?.map Calendar.dateText
  churn : summary.fileChurn =
    Ranking.top top standardTop FileChurn.changes (churnOf (changes.flatten.map shownPath))

/-- The summary of a list of the history describes it, if the limit allows all authors. -/
theorem summaryOf_describes {enumeration : Enumeration} {branches : Nat} {changes : List (List (List UInt8))}
    (visits : repository.Visits commits) (enough : repository.identities.ncard ≤ top) :
    (summaryOf enumeration branches top now commits changes).Describes top now commits changes := by
  refine ⟨rfl, ?_, rfl, rfl, rfl, rfl⟩
  exact (summaryOf_listsAuthors visits enough).sum

/-! ### What a summary is -/

/-- Where nothing is lost, the summary is made from all commits and all changes. -/
theorem summary_of_whole (walked : repository.walk? = some commits)
    (whole : ∀ commit ∈ commits, (repository.changes? commit).isSome) :
    repository.summary top now =
      summaryOf repository.reading.enumeration repository.branches top now commits
        (commits.filterMap repository.changes?) := by
  obtain ⟨changes, hchanges⟩ := Option.isSome_iff_exists.1 (Repository.isSome_mapM_iff.2 whole)
  rw [Repository.mapM_changes? hchanges]
  unfold Repository.summary
  simp only [walked, hchanges]

/-- Where changes are lost, only the commits are counted. -/
theorem summary_of_lost (walked : repository.walk? = some commits)
    (lost : ∃ commit ∈ commits, ¬ (repository.changes? commit).isSome) :
    repository.summary top now =
      { isRepository := true
        branches := repository.branches
        totalCommits := (repository.counted commits).length } := by
  have hmapM : commits.mapM repository.changes? = none := by
    refine Option.not_isSome_iff_eq_none.1 fun changed => ?_
    obtain ⟨commit, mem, hcommit⟩ := lost
    exact hcommit (Repository.isSome_mapM_iff.1 changed commit mem)
  rw [Repository.length_counted lost]
  unfold Repository.summary
  simp only [walked, hmapM]
  rfl

/-- Of a history that cannot be read, the summary has at most the number of some commits. -/
theorem summary_of_not_readable (lost : ¬ repository.IsReadable) (top : Nat) (now : Instant) :
    ∃ count, repository.summary top now =
      { isRepository := true, branches := repository.branches, totalCommits := count } := by
  cases walked : repository.walk? with
  | none =>
    refine ⟨0, ?_⟩
    unfold Repository.summary
    rw [walked]
  | some commits =>
    rw [Repository.isReadable_iff_of_walk? walked] at lost
    exact ⟨_, summary_of_lost walked (by simpa only [not_forall, exists_prop] using lost)⟩

/-- **A summary describes the commits it counts if and only if the history can be read to the end.**
If a walk is interrupted at a commit whose changes are lost, then the summary counts the commits up to
this one, and says nothing else of them: there are no contributors, no files, no days and no dates. -/
theorem summary_describes_iff {repository : Repository} {commits : List Commit}
    (walked : repository.walk? = some commits) (top : Nat)
    (enough : repository.identities.ncard ≤ top) (now : Instant) :
    ((repository.summary top now).Describes top now (repository.counted commits)
      ((repository.wholeCommits commits).filterMap repository.changes?) ↔ repository.IsReadable) ∧
    (¬ repository.IsReadable →
      (repository.counted commits).length = (repository.wholeCommits commits).length + 1 ∧
      repository.summary top now =
        { isRepository := true
          branches := repository.branches
          totalCommits := (repository.counted commits).length }) := by
  rw [Repository.isReadable_iff_of_walk? walked]
  by_cases whole : ∀ commit ∈ commits, (repository.changes? commit).isSome
  · refine ⟨iff_of_true ?_ whole, fun lost => absurd whole lost⟩
    rw [summary_of_whole walked whole, Repository.counted_eq_self whole,
      Repository.wholeCommits_eq_self whole]
    exact summaryOf_describes (Repository.walk?_visits walked) enough
  · have lost : ∃ commit ∈ commits, ¬ (repository.changes? commit).isSome := by
      simpa only [not_forall, exists_prop] using whole
    have hlength := Repository.length_counted lost
    refine ⟨iff_of_false ?_ whole, fun _ => ⟨hlength, summary_of_lost walked lost⟩⟩
    intro describes
    -- Commits are counted, but none of them has a contributor.
    have hsum := describes.contributors
    rw [summary_of_lost walked lost, hlength] at hsum
    exact absurd hsum (Nat.succ_ne_zero _).symm

/-- A history of three commits on three days, each with a new file, where the files of the first commit
are lost.  They are missed when the second commit, which comes after the third one in the walk, is
compared with its parent. -/
def interrupted : Repository where
  commits :=
    let ada : Person := ⟨[0x41, 0x64, 0x61], [0x61]⟩
    let blob : Blob := ⟨⟨#[0x0A]⟩, false⟩
    [("third", ⟨⟨ada, 300000⟩, ⟨ada, 300000⟩, ["second"],
        some [([0x61], blob), ([0x62], blob), ([0x63], blob)]⟩),
      ("second", ⟨⟨ada, 200000⟩, ⟨ada, 200000⟩, ["first"], some [([0x61], blob), ([0x62], blob)]⟩),
      ("first", ⟨⟨ada, 100000⟩, ⟨ada, 100000⟩, [], none⟩)]
  head? := some "third"

/-- The commits of this history, last one first. -/
def interruptedWalk : List Commit :=
  (interrupted.walk?).getD []

/-- The sample can be walked, since a lost tree does not matter to the walk. -/
theorem walk?_interrupted : interrupted.walk? = some interruptedWalk := by
  cbv

theorem identities_interrupted : interrupted.identities.ncard ≤ 10 := by
  rw [← (Repository.walk?_visits walk?_interrupted).length_contributorsOf]
  cbv

/-- Two commits are counted, of which one has its changes read, and nothing else is told. -/
theorem summary_describes_iff_interrupted :
    interrupted.walk? = some interruptedWalk ∧ interrupted.identities.ncard ≤ 10 ∧
      ¬ interrupted.IsReadable ∧ (interrupted.wholeCommits interruptedWalk).length = 1 ∧
      interrupted.summary 10 ((1000000 : Int) : Instant) = { isRepository := true, totalCommits := 2 } := by
  have lost : ¬ interrupted.IsReadable := by
    rw [Repository.isReadable_iff_of_walk? walk?_interrupted, ← Repository.isSome_mapM_iff,
      Bool.not_eq_true]
    cbv
  obtain ⟨_, partly⟩ := summary_describes_iff walk?_interrupted 10 identities_interrupted
    ((1000000 : Int) : Instant)
  have hwhole : (interrupted.wholeCommits interruptedWalk).length = 1 := by cbv
  obtain ⟨hlength, hsummary⟩ := partly lost
  refine ⟨walk?_interrupted, identities_interrupted, lost, hwhole, ?_⟩
  rw [hsummary, hlength, hwhole]
  cbv

/-- A commit has been read to its end before the walk is interrupted, and still the summary does not
describe the two commits that it counts. -/
theorem not_describes_interrupted :
    interrupted.walk? = some interruptedWalk ∧ interrupted.identities.ncard ≤ 10 ∧
      0 < (interrupted.wholeCommits interruptedWalk).length ∧
      ¬ (interrupted.summary 10 ((1000000 : Int) : Instant)).Describes 10 ((1000000 : Int) : Instant)
        (interrupted.counted interruptedWalk)
        ((interrupted.wholeCommits interruptedWalk).filterMap interrupted.changes?) := by
  refine ⟨walk?_interrupted, identities_interrupted, by cbv, ?_⟩
  intro describes
  have total : (interrupted.summary 10 ((1000000 : Int) : Instant)).totalCommits = 2 := by cbv
  have nobody : (interrupted.summary 10 ((1000000 : Int) : Instant)).contributors = [] := by cbv
  have hsum := describes.contributors
  rw [total, nobody] at hsum
  exact absurd hsum (by decide)

end CodeCensus.History
