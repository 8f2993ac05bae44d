import CodeCensus.History.Account
import CodeCensus.Proofs.History.Reachable
import CodeCensus.Proofs.Ranking
import Mathlib

/-!
# What the summary counts

The numbers in the summary of a repository are sizes of sets of commits in its history, and its two
days are bounds of a set of times (`Summary.Counts`).  This is shown for the summary of any list that
has the history in some order (`summaryOf_counts`); the summary of a repository that can be read is one
of these.  Since the sets do not know the order, neither do the numbers.

The contributors count as far as the limit allows all of them to be listed, and the commits in the
activity window are added up in 64 bits.
-/

namespace CodeCensus.History

open Calendar (Instant)

/-! ### The history as sets -/

namespace Repository

/-- The authors of the history. -/
def identities (repository : Repository) : Set (String × String) :=
  {identity | ∃ entry ∈ repository.history, entry.2.identity = identity}

/-- The commits of an author. -/
def authoredBy (repository : Repository) (identity : String × String) : Set (CommitId × Commit) :=
  {entry ∈ repository.history | entry.2.identity = identity}

/-- The commits that the committer put in at most thirty days before an instant or later, and both of
whose times are representable. -/
def recent (repository : Repository) (now : Instant) : Set (CommitId × Commit) :=
  {entry ∈ repository.history |
    Calendar.representable entry.2.author.time ∧ Calendar.representable entry.2.committer.time ∧
      now.total - 30 * 86400 * 10 ^ 9 ≤ entry.2.committer.time * 10 ^ 9}

/-- The author times of the history, as far as they are representable. -/
def times (repository : Repository) : Set Int :=
  {time | Calendar.representable time ∧ ∃ entry ∈ repository.history, entry.2.author.time = time}

end Repository

/-- The contributors of a summary are the authors of the history, each listed once with the number of
their commits, and together they have all commits. -/
structure Summary.ListsAuthors (summary : Summary) (repository : Repository) : Prop where
  nodup : (summary.contributors.map Contributor.identity).Nodup
  identities : ∀ identity, identity ∈ summary.contributors.map Contributor.identity ↔
    identity ∈ repository.identities
  commits : ∀ contributor ∈ summary.contributors,
    contributor.commits = (repository.authoredBy contributor.identity).ncard
  sum : (summary.contributors.map Contributor.commits).sum = summary.totalCommits

/-- What a summary says about the history of a repository. -/
structure Summary.Counts (summary : Summary) (repository : Repository) (top : Nat) (now : Instant) :
    Prop where
  total : summary.totalCommits = repository.history.ncard
  contributors : repository.identities.ncard ≤ top → summary.ListsAuthors repository
  activity : (summary.recentActivity.map DayActivity.commits).sum = (repository.recent now).ncard
  first : ∀ day, summary.firstCommit = some day ↔
    ∃ time, IsLeast repository.times time ∧ Calendar.dateText time = day
  last : ∀ day, summary.lastCommit = some day ↔
    ∃ time, IsGreatest repository.times time ∧ Calendar.dateText time = day

variable {repository : Repository} {commits : List Commit}

/-! ### Contributors -/

/-- Every author has one entry. -/
theorem nodup_contributorsOf (commits : List Commit) :
    ((contributorsOf commits).map Contributor.identity).Nodup := by
  refine Ranking.nodup_map_gather ?_ ?_ commits
  · exact fun _ => rfl
  · exact fun _ _ => rfl

/-- The entries are those of the authors of some commit. -/
theorem mem_map_contributorsOf {identity : String × String} :
    identity ∈ (contributorsOf commits).map Contributor.identity ↔
      identity ∈ commits.map Commit.identity := by
  refine Ranking.mem_map_gather ?_ ?_
  · exact fun _ => rfl
  · exact fun _ _ => rfl

/-- A contributor has as many commits as there are of that author. -/
theorem commits_eq_countP_of_mem {contributor : Contributor} (mem : contributor ∈ contributorsOf commits) :
    contributor.commits =
      commits.countP fun commit => commit.identity = contributor.identity := by
  have hsum : contributor.commits =
      ((commits.filter fun commit => commit.identity = contributor.identity).map fun _ => 1).sum := by
    refine Ranking.weight_eq_of_mem_gather ?_ ?_ ?_ mem
    · exact fun _ => rfl
    · exact fun _ _ => rfl
    · exact fun _ _ _ => rfl
  rw [hsum, List.countP_eq_length_filter]
  simp

/-- A contributor is known from the identity and the number of commits. -/
theorem Contributor.eq_of_identity_eq {a b : Contributor} (same : a.identity = b.identity)
    (commits : a.commits = b.commits) : a = b := by
  cases a
  cases b
  cases same
  cases commits
  rfl

/-- The commits of all contributors are all commits. -/
theorem sum_contributorsOf (commits : List Commit) :
    ((contributorsOf commits).map Contributor.commits).sum = commits.length := by
  rw [contributorsOf, Ranking.sum_gather fun _ _ _ => rfl]
  simp

/-! ### Days -/

/-- The activity window of thirty days in nanoseconds. -/
theorem isRecent_iff {now : Instant} {commit : Commit} :
    isRecent now commit ↔
      Calendar.representable commit.author.time ∧ Calendar.representable commit.committer.time ∧
        now.total - 30 * 86400 * 10 ^ 9 ≤ commit.committer.time * 10 ^ 9 := by
  rw [isRecent, Bool.and_eq_true, Bool.and_eq_true, and_assoc]
  refine and_congr_right fun _ => and_congr_right fun _ => ?_
  rw [Instant.isReachedBy, decide_eq_true_eq]
  simp only [Instant.total, Instant.minusDays, windowDays, Calendar.daySeconds, Instant.second]
  omega

/-! ### Lists of the history -/

namespace Repository.Visits

/-- The authors of visited commits are the authors of the history. -/
theorem mem_map_identity (visits : repository.Visits commits) {identity : String × String} :
    identity ∈ commits.map Commit.identity ↔ identity ∈ repository.identities := by
  rw [List.mem_map]
  exact visits.exists_iff

/-- A contributor has the commits of that author in the history. -/
theorem commits_eq_ncard (visits : repository.Visits commits) {contributor : Contributor}
    (mem : contributor ∈ contributorsOf commits) :
    contributor.commits = (repository.authoredBy contributor.identity).ncard := by
  rw [commits_eq_countP_of_mem mem, visits.countP_eq_ncard]
  simp only [decide_eq_true_eq]
  rfl

/-- The times of visited commits are the times of the history. -/
theorem mem_authorTimes (visits : repository.Visits commits) {time : Int} :
    time ∈ authorTimes commits ↔ time ∈ repository.times := by
  rw [authorTimes, List.mem_filter, List.mem_map, and_comm]
  exact and_congr_right fun _ => visits.exists_iff

/-- There is one contributor for each author. -/
theorem length_contributorsOf (visits : repository.Visits commits) :
    (contributorsOf commits).length = repository.identities.ncard := by
  have hset : repository.identities =
      (((contributorsOf commits).map Contributor.identity).toFinset : Set (String × String)) := by
    ext identity
    rw [List.coe_toFinset, Set.mem_ofPred_eq, mem_map_contributorsOf, visits.mem_map_identity]
  rw [hset, Set.ncard_coe_finset, List.toFinset_card_of_nodup (nodup_contributorsOf commits),
    List.length_map]

/-- The commits in the activity window, on whichever days they are, are the recent ones. -/
theorem sum_activityOf (visits : repository.Visits commits) (now : Instant) :
    ((activityOf ((commits.filter (isRecent now)).map (·.author.time))).map DayActivity.commits).sum =
      (repository.recent now).ncard := by
  have hkind : repository.recent now = {entry ∈ repository.history | isRecent now entry.2} := by
    ext entry
    exact and_congr_right fun _ => isRecent_iff.symm
  rw [hkind, ← visits.countP_eq_ncard, List.countP_eq_length_filter, activityOf,
    ((List.mergeSort_perm _ _).map DayActivity.commits).sum_eq, Ranking.sum_gather fun _ _ _ => rfl]
  rw [List.map_const', List.length_map, List.sum_replicate_nat, Nat.mul_one]

/-- The first of these times is the least one of the history. -/
theorem min?_eq_some_iff (visits : repository.Visits commits) {time : Int} :
    (authorTimes commits).min? = some time ↔ IsLeast repository.times time := by
  rw [List.min?_eq_some_iff, visits.mem_authorTimes]
  refine and_congr_right fun _ => forall_congr' fun other => ?_
  rw [visits.mem_authorTimes]

/-- The last of these times is the greatest one of the history. -/
theorem max?_eq_some_iff (visits : repository.Visits commits) {time : Int} :
    (authorTimes commits).max? = some time ↔ IsGreatest repository.times time := by
  rw [List.max?_eq_some_iff, visits.mem_authorTimes]
  refine and_congr_right fun _ => forall_congr' fun other => ?_
  rw [visits.mem_authorTimes]

end Repository.Visits

/-! ### Summaries of the history -/

section SummaryOf

variable {enumeration : Enumeration} {branches top : Nat} {now : Instant}
  {changes : List (List (List UInt8))}

/-- With room for all of them, the authors of the history are listed, each with the number of their commits.
-/
theorem summaryOf_listsAuthors (visits : repository.Visits commits)
    (enough : repository.identities.ncard ≤ top) :
    (summaryOf enumeration branches top now commits changes).ListsAuthors repository := by
  have htable := enumeration.perm (contributorsOf commits)
  have hperm : (summaryOf enumeration branches top now commits changes).contributors.Perm
      (contributorsOf commits) := by
    rw [summaryOf, listed, List.take_of_length_le]
    · exact (List.mergeSort_perm _ _).trans htable
    · rw [List.length_mergeSort, htable.length_eq, visits.length_contributorsOf]
      exact Ranking.le_limit enough
  refine ⟨?_, fun identity => ?_, fun contributor mem => ?_, ?_⟩
  · exact (hperm.map _).nodup_iff.2 (nodup_contributorsOf commits)
  · rw [(hperm.map _).mem_iff, mem_map_contributorsOf, visits.mem_map_identity]
  · exact visits.commits_eq_ncard (hperm.mem_iff.1 mem)
  · rw [(hperm.map _).sum_eq, sum_contributorsOf]
    rfl

/-- Without commits, a summary only says that there is a repository, and its branches. -/
theorem summaryOf_nil :
    summaryOf enumeration branches top now [] [] = { isRepository := true, branches := branches } := by
  have hnobody : enumeration.arrange [] = [] := (enumeration.perm []).eq_nil
  simp [summaryOf, listed, hnobody, contributorsOf, churnOf, activityOf, authorTimes, Ranking.gather,
    Ranking.top, Ranking.descending]

/-- The summary of a list that has the history in some order counts the history. -/
theorem summaryOf_counts (visits : repository.Visits commits) :
    (summaryOf enumeration branches top now commits changes).Counts repository top now := by
  refine ⟨?_, ?_, ?_, fun day => ?_, fun day => ?_⟩
  · exact visits.length_eq_ncard
  · exact summaryOf_listsAuthors visits
  · exact visits.sum_activityOf now
  · rw [summaryOf, Option.map_eq_some_iff]
    simp only [visits.min?_eq_some_iff]
  · rw [summaryOf, Option.map_eq_some_iff]
    simp only [visits.max?_eq_some_iff]

end SummaryOf

/-! ### The summary of a repository -/

/-- The recent commits are those of the recent days, added up in a machine word. -/
theorem Summary.recentCommits_eq_sum (summary : Summary) :
    summary.recentCommits = (summary.recentActivity.map DayActivity.commits).sum % 2 ^ 64 := rfl

/-- The commits in the activity window are no more than all commits. -/
theorem Summary.Counts.recentCommits_eq {summary : Summary} {top : Nat} {now : Instant}
    (counts : summary.Counts repository top now) (fits : summary.totalCommits < 2 ^ 64) :
    summary.recentCommits = (repository.recent now).ncard := by
  have hle : (repository.recent now).ncard ≤ repository.history.ncard :=
    Set.ncard_le_ncard (fun _ mem => mem.1) repository.history_finite
  rw [← counts.total] at hle
  rw [Summary.recentCommits_eq_sum, counts.activity, Nat.mod_eq_of_lt (hle.trans_lt fits)]

/-- Which contributors are listed is determined by the history. -/
theorem Summary.ListsAuthors.mem_iff {summary : Summary} (lists : summary.ListsAuthors repository)
    (contributor : Contributor) : contributor ∈ summary.contributors ↔
      contributor.identity ∈ repository.identities ∧
        contributor.commits = (repository.authoredBy contributor.identity).ncard := by
  constructor
  · intro mem
    exact ⟨(lists.identities _).1 (List.mem_map_of_mem mem), lists.commits contributor mem⟩
  · rintro ⟨author, hcommits⟩
    obtain ⟨listed, mem, same⟩ := List.mem_map.1 ((lists.identities _).2 author)
    have heq : listed = contributor := by
      apply Contributor.eq_of_identity_eq same
      rw [lists.commits listed mem, same, hcommits]
    rwa [← heq]

/-- Two lists of all authors differ in their order only. -/
theorem Summary.ListsAuthors.perm {summary other : Summary} (lists : summary.ListsAuthors repository)
    (otherwise : other.ListsAuthors repository) : other.contributors.Perm summary.contributors := by
  refine (List.perm_ext_iff_of_nodup (otherwise.nodup.of_map _) (lists.nodup.of_map _)).2 ?_
  intro contributor
  rw [otherwise.mem_iff, lists.mem_iff]

/-- The summary of a repository that can be read is that of a list of its history, and the same list
whatever the order is in which the contributors are enumerated. -/
theorem exists_visits_summary_enumerated (readable : repository.IsReadable) (top : Nat) (now : Instant) :
    ∃ commits changes, repository.Visits commits ∧ ∀ enumeration,
      (repository.enumerated enumeration).summary top now =
        summaryOf enumeration repository.branches top now commits changes := by
  cases hhead : repository.head? with
  | none =>
    refine ⟨[], [], ⟨[], List.nodup_nil, ?_, .nil⟩, fun enumeration => ?_⟩
    · simp [Repository.history_eq_empty hhead]
    · have hwalk : repository.walk? = none := by simp [Repository.walk?, hhead]
      rw [summaryOf_nil, Repository.summary, Repository.walk?_enumerated, hwalk]
      rfl
  | some head =>
    obtain ⟨commits, walked, changed⟩ := (Repository.isReadable_iff hhead).1 readable
    obtain ⟨changes, hchanges⟩ := Option.isSome_iff_exists.1 changed
    refine ⟨commits, changes, Repository.walk?_visits walked, fun enumeration => ?_⟩
    have hsame : commits.mapM (repository.enumerated enumeration).changes? = some changes := hchanges
    rw [Repository.summary, Repository.walk?_enumerated, walked]
    simp only [hsame]
    rfl

/-- The summary of a repository that can be read is that of a list of its history. -/
theorem exists_visits_summary (readable : repository.IsReadable) (top : Nat) (now : Instant) :
    ∃ commits changes, repository.Visits commits ∧ repository.summary top now =
      summaryOf repository.reading.enumeration repository.branches top now commits changes := by
  obtain ⟨commits, changes, visits, hsummary⟩ := exists_visits_summary_enumerated readable top now
  exact ⟨commits, changes, visits, hsummary repository.reading.enumeration⟩

/-- **The summary of a history is exact.**  If the history can be read, the summary counts it, and in
whatever other order the commits had been met and the contributors had been enumerated, these numbers,
days and contributors would be the same.
The commits in the activity window are added up in 64 bits, so there must not be more commits than can
be counted in them. -/
theorem summary_exact {repository : Repository} (readable : repository.IsReadable) (top : Nat)
    (now : Instant) :
    repository.history.Finite ∧
    (repository.summary top now).Counts repository top now ∧
    ((repository.summary top now).totalCommits < 2 ^ 64 →
      (repository.summary top now).recentCommits = (repository.recent now).ncard) ∧
    ∀ order, repository.Visits order → ∀ enumeration changes,
      let summary := repository.summary top now
      let other := summaryOf enumeration repository.branches top now order changes
      other.totalCommits = summary.totalCommits ∧
      other.recentCommits = summary.recentCommits ∧
      other.firstCommit = summary.firstCommit ∧
      other.lastCommit = summary.lastCommit ∧
      (repository.identities.ncard ≤ top → other.contributors.Perm summary.contributors) := by
  obtain ⟨commits, changes, visits, hsummary⟩ := exists_visits_summary readable top now
  have counts : (repository.summary top now).Counts repository top now := by
    rw [hsummary]
    exact summaryOf_counts visits
  refine ⟨repository.history_finite, counts, counts.recentCommits_eq, ?_⟩
  intro order visited enumeration changed summary other
  have otherwise : other.Counts repository top now := summaryOf_counts visited
  refine ⟨?_, ?_, ?_, ?_, fun enough => ?_⟩
  · rw [otherwise.total, counts.total]
  · rw [Summary.recentCommits_eq_sum, Summary.recentCommits_eq_sum, otherwise.activity,
      counts.activity]
  · refine Option.ext fun day => ?_
    rw [otherwise.first, counts.first]
  · refine Option.ext fun day => ?_
    rw [otherwise.last, counts.last]
  · exact (counts.contributors enough).perm (otherwise.contributors enough)

/-- A history in which two branches meet again.  The left branch has a later committer time than the
merge, the author time of the right one is not representable, and there is a commit that the head does
not lead to. -/
def diamond : Repository where
  commits :=
    let ada : Person := ⟨[0x41, 0x64, 0x61], [0x61]⟩
    let bo : Person := ⟨[0x42, 0x6F], [0xFF]⟩
    [("merge", ⟨⟨ada, 100⟩, ⟨ada, 3000000⟩, ["left", "right"], some []⟩),
      ("left", ⟨⟨bo, 200⟩, ⟨ada, 5000000⟩, ["root"], some []⟩),
      ("right", ⟨⟨ada, 10 ^ 18⟩, ⟨ada, 3000000⟩, ["root"], some []⟩),
      ("root", ⟨⟨bo, 50⟩, ⟨bo, 60⟩, [], some []⟩),
      ("elsewhere", ⟨⟨bo, 0⟩, ⟨bo, 0⟩, [], none⟩)]
  head? := some "merge"

/-- Two of the four commits are by an author whose address is no text. -/
theorem summary_exact_diamond :
    diamond.IsReadable ∧ diamond.identities.ncard ≤ 2 ∧ diamond.history.ncard = 4 ∧
      (diamond.summary 2 ((3000000 : Int) : Instant)).recentCommits =
        (diamond.recent ((3000000 : Int) : Instant)).ncard ∧
      (diamond.authoredBy ("Bo", "")).ncard = 2 ∧
      ∃ time, IsLeast diamond.times time ∧ Calendar.dateText time = "1970-01-01" := by
  have walked : diamond.walk? = some (diamond.walk?.get (by cbv)) := by simp
  have readable : diamond.IsReadable := by
    refine (Repository.isReadable_iff rfl).2 ⟨_, walked, ?_⟩
    cbv
  have authors : diamond.identities.ncard ≤ 2 := by
    rw [← (Repository.walk?_visits walked).length_contributorsOf]
    cbv
  obtain ⟨_, counts, recent, _⟩ := summary_exact readable 2 ((3000000 : Int) : Instant)
  refine ⟨readable, authors, ?_, recent ?_, ?_, (counts.first _).1 ?_⟩
  · rw [← counts.total]
    cbv
  · cbv
  · have bo : (⟨"Bo", "", 2⟩ : Contributor) ∈
        (diamond.summary 2 ((3000000 : Int) : Instant)).contributors := by
      refine List.contains_iff_mem.1 ?_
      cbv
    exact ((counts.contributors authors).commits _ bo).symm
  · cbv

end CodeCensus.History
