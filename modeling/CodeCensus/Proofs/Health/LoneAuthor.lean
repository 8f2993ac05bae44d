import CodeCensus.Analysis.Survey
import CodeCensus.Proofs.Digits
import CodeCensus.Proofs.Health.Categories
import CodeCensus.Proofs.History.Counting
import Mathlib

/-!
# Projects of a single author

Points are taken off the activity of a large project that has a single author.  The score does not see
the history, though, but its summary, in which the list of contributors has been cut off at the length
that is asked for.  A list of one contributor is therefore all that the score needs, and there are two
reasons for such a list: a history with one author, and a list that was asked to be no longer
(`loneAuthor_deducted_iff`).  With any other length the points are taken off exactly where there is one
author.
-/

namespace CodeCensus

/-- What the health in a report is found from. -/
def Report.signals (report : Report) : Health.Signals :=
  ⟨report.languages, report.files, report.markers, report.history, report.dependencies⟩

namespace Health

/-! ### The activity of a project -/

/-- The deduction for a single author. -/
def loneAuthor : Deduction :=
  ⟨3, some "Single contributor on a large project", none⟩

variable {signals : Signals}

/-- The deduction for a lone author is none of those for inactivity. -/
theorem loneAuthor_notMem_inactivity (recent : Nat) : loneAuthor ∉ inactivity recent := by
  unfold inactivity deductIf
  split
  · simp [loneAuthor]
  · split <;> simp [loneAuthor]

/-- The activity of a project with a history. -/
theorem activity_of_isRepository (isRepository : signals.history.isRepository) :
    activity signals = inactivity signals.history.recentCommits ++
      deductIf (signals.history.contributors.length = 1 ∧ 50 < signals.history.totalCommits)
        loneAuthor :=
  if_pos isRepository

/-- A single author is seen from the list of contributors. -/
theorem loneAuthor_mem_activity_iff (isRepository : signals.history.isRepository) :
    loneAuthor ∈ activity signals ↔
      signals.history.contributors.length = 1 ∧ 50 < signals.history.totalCommits := by
  rw [activity_of_isRepository isRepository, List.mem_append,
    or_iff_right (loneAuthor_notMem_inactivity _), deductIf]
  split <;> simp [*]

/-- Only few commits and a single author take points off the activity of a project with a history. -/
theorem categoryScore_activity (isRepository : signals.history.isRepository) :
    categoryScore (activity signals) = 25 - inactivityPoints signals.history.recentCommits -
      if loneAuthor ∈ activity signals then 3 else 0 := by
  have hscore := activity_score signals
  change categoryScore (activity signals) = _ at hscore
  simp only [loneAuthor_mem_activity_iff isRepository]
  rw [hscore, activityPoints, if_pos isRepository, Nat.sub_sub]

end Health

namespace History

variable {repository : Repository} {top : Nat} {now : Calendar.Instant}

/-! ### The list of contributors -/

/-- The list of contributors has all authors, as far as it may be so long. -/
theorem length_contributors_summary (readable : repository.IsReadable) :
    (repository.summary top now).contributors.length =
      min (Ranking.limit top standardTop) repository.identities.ncard := by
  obtain ⟨commits, changes, visits, hsummary⟩ := exists_visits_summary readable top now
  rw [hsummary, summaryOf, listed, List.length_take, List.length_mergeSort,
    (Enumeration.perm _ _).length_eq, visits.length_contributorsOf]

/-- A history that can be read is counted whole. -/
theorem totalCommits_summary (readable : repository.IsReadable) :
    (repository.summary top now).totalCommits = repository.history.ncard := by
  obtain ⟨commits, changes, visits, hsummary⟩ := exists_visits_summary readable top now
  rw [hsummary]
  exact visits.length_eq_ncard

theorem isRepository_summary : (repository.summary top now).isRepository := by
  unfold Repository.summary
  split
  · rfl
  · split <;> rfl

/-- Where there are commits there are authors. -/
theorem Repository.ncard_identities_pos (commits : 0 < repository.history.ncard) :
    0 < repository.identities.ncard := by
  have himage : repository.identities = (fun entry => entry.2.identity) '' repository.history := rfl
  rw [himage, Set.ncard_pos (repository.history_finite.image _), Set.image_nonempty]
  exact Set.nonempty_of_ncard_ne_zero commits.ne'

/-- A list of one contributor is all that was asked for, or there is one author. -/
theorem length_contributors_eq_one_iff (readable : repository.IsReadable)
    (commits : 0 < repository.history.ncard) :
    (repository.summary top now).contributors.length = 1 ↔
      repository.identities.ncard = 1 ∨ top = 1 := by
  have hauthors := Repository.ncard_identities_pos commits
  rw [length_contributors_summary readable, Ranking.limit, standardTop]
  split <;> omega

/-! ### Two authors who take turns -/

/-- The name of a commit by its number. -/
def numberedId (number : Nat) : CommitId :=
  String.ofList (Calendar.padded idLength number)

/-- Commits with different numbers have different names. -/
theorem numberedId_injective : Function.Injective numberedId :=
  fun _ _ same => padded_injective idLength (String.ofList_injective same)

/-- The commits of two authors who take turns, each commit with the one before it as its parent. -/
def turn (number : Nat) : Commit :=
  let author : Person := if number % 2 = 0 then ⟨[0x41, 0x64, 0x61], [0x61]⟩ else ⟨[0x42, 0x6F], [0x62]⟩
  { author := ⟨author, number⟩
    committer := ⟨author, number⟩
    parents := if number = 0 then [] else [numberedId (number - 1)]
    files? := some [] }

/-- A history in which two authors have taken fifty-one turns. -/
def turns : Repository where
  commits := (List.range 51).map fun number => (numberedId number, turn number)
  head? := some (numberedId 50)

/-- Each of the fifty-one commits is found under its name. -/
theorem find?_turns {number : Nat} (lt : number < 51) :
    turns.find? (numberedId number) = some (turn number) := by
  obtain ⟨before, after, hrange⟩ := List.append_of_mem (List.mem_range.2 lt)
  refine List.lookup_eq_some_iff.2 ⟨before.map fun n => (numberedId n, turn n),
    after.map fun n => (numberedId n, turn n), ?_, ?_⟩
  · rw [turns, hrange]
    simp
  · intro entry mem
    obtain ⟨other, hother, rfl⟩ := List.mem_map.1 mem
    have hnodup : (before ++ number :: after).Nodup := hrange ▸ List.nodup_range
    have hne : number ≠ other := by
      rintro rfl
      exact (List.nodup_append.1 hnodup).2.2 _ hother _ List.mem_cons_self rfl
    simpa using numberedId_injective.ne hne

/-- And nothing else is found. -/
theorem eq_turn_of_find? {id : CommitId} {commit : Commit} (found : turns.find? id = some commit) :
    ∃ number < 51, id = numberedId number ∧ commit = turn number := by
  obtain ⟨before, after, hcommits, _⟩ := List.lookup_eq_some_iff.1 found
  have mem : (id, commit) ∈ turns.commits := by
    rw [hcommits]
    exact List.mem_append_right before List.mem_cons_self
  obtain ⟨number, hnumber, heq⟩ := List.mem_map.1 mem
  cases heq
  exact ⟨number, List.mem_range.1 hnumber, rfl, rfl⟩

/-- Each of these commits is reached from the last one, parent by parent. -/
theorem reachable_turns {number : Nat} (lt : number < 51) : turns.Reachable (numberedId number) := by
  -- The walk goes down from the head, which has the highest number.
  induction hback : 50 - number generalizing number with
  | zero =>
    obtain rfl : number = 50 := by omega
    exact .start List.mem_cons_self
  | succ back ih =>
    have above : turns.Reachable (numberedId (number + 1)) := ih (by omega) (by omega)
    refine above.parent (find?_turns (by omega)) ?_
    simp [turn]

/-- And nothing else is reached. -/
theorem find?_of_reachable_turns {id : CommitId} (reachable : turns.Reachable id) :
    ∃ number < 51, id = numberedId number := by
  induction reachable with
  | start mem => exact ⟨50, by decide, List.eq_of_mem_singleton mem⟩
  | parent _ found isParent _ =>
    obtain ⟨number, lt, _, rfl⟩ := eq_turn_of_find? found
    by_cases first : number = 0
    · simp [turn, first] at isParent
    · simp only [turn, first, if_false, List.mem_singleton] at isParent
      exact ⟨number - 1, by omega, isParent⟩

/-- The sample can be read, as every commit that is reached is there with its files. -/
theorem isReadable_turns : turns.IsReadable := by
  intro id reachable
  obtain ⟨number, lt, rfl⟩ := find?_of_reachable_turns reachable
  refine ⟨turn number, find?_turns lt, ?_⟩
  by_cases first : number = 0
  · simp [Repository.changes?, turn, first]
  · have hparent : turns.find? (numberedId (number - 1)) = some (turn (number - 1)) :=
      find?_turns (by omega)
    simp [Repository.changes?, turn, first] at hparent ⊢
    simp [hparent]

/-- Its history has these commits. -/
theorem history_turns :
    turns.history = (fun number => (numberedId number, turn number)) '' (Finset.range 51 : Set Nat) := by
  ext ⟨id, commit⟩
  constructor
  · rintro ⟨_, found⟩
    obtain ⟨number, lt, rfl, rfl⟩ := eq_turn_of_find? found
    exact ⟨number, by simpa using lt, rfl⟩
  · rintro ⟨number, lt, heq⟩
    cases heq
    have lt : number < 51 := by simpa using lt
    exact ⟨reachable_turns lt, find?_turns lt⟩

theorem ncard_history_turns : turns.history.ncard = 51 := by
  have hinjective : Function.Injective fun number => (numberedId number, turn number) :=
    fun number other same => numberedId_injective (Prod.ext_iff.1 same).1
  rw [history_turns, Set.ncard_image_of_injective _ hinjective, Set.ncard_coe_finset,
    Finset.card_range]

/-- Ada and Bo make them in turns. -/
theorem identity_turn (number : Nat) :
    (turn number).identity = if number % 2 = 0 then ("Ada", "a") else ("Bo", "b") := by
  unfold Commit.identity turn
  split <;> cbv

/-- So there are two authors. -/
theorem ncard_identities_turns : turns.identities.ncard = 2 := by
  have hpair : turns.identities = {("Ada", "a"), ("Bo", "b")} := by
    ext identity
    constructor
    · rintro ⟨entry, mem, rfl⟩
      rw [history_turns] at mem
      obtain ⟨number, _, rfl⟩ := mem
      rw [identity_turn]
      split <;> simp
    · have hturn : ∀ number < 51, (turn number).identity ∈ turns.identities := fun number lt =>
        ⟨(numberedId number, turn number), ⟨reachable_turns lt, find?_turns lt⟩, rfl⟩
      rintro (rfl | rfl)
      · have hfirst := hturn 0 (by decide)
        rwa [identity_turn] at hfirst
      · have hsecond := hturn 1 (by decide)
        rwa [identity_turn] at hsecond
  rw [hpair]
  exact Set.ncard_pair (by decide)

end History

namespace Analysis

open Health (loneAuthor)
open History

variable {around : Surroundings} {root : Path} {plan : Plan} {report : Report}
  {repository : Repository}

/-! ### Surveys -/

/-- What a report is made from. -/
theorem exists_signals_of_survey (surveyed : survey around root plan = .ok report) :
    ∃ files, report.signals = signals around root plan files ∧
      report.health = Health.score report.signals := by
  unfold survey at surveyed
  split at surveyed
  · cases surveyed
  · cases surveyed
  · next files _ _ =>
    cases surveyed
    exact ⟨files, rfl, rfl⟩

/-- There is a report wherever files are found. -/
theorem exists_survey {files : List SourceFile} (some : files ≠ [])
    (listed : Discovery.files around.disk root plan.discovery = .ok files) :
    ∃ report, survey around root plan = .ok report := by
  obtain ⟨first, rest, rfl⟩ := List.exists_cons_of_ne_nil some
  unfold survey
  rw [listed]
  exact ⟨_, rfl⟩

/-- The history of a report is the summary of the repository of the project. -/
theorem history_of_survey (surveyed : survey around root plan = .ok report)
    (found : History.repositoryOf? around.disk around.objects? root = some repository)
    (looked : plan.noGit = false) :
    report.signals.history = repository.summary plan.top around.now := by
  obtain ⟨files, hsignals, _⟩ := exists_signals_of_survey surveyed
  rw [hsignals, signals, looked, History.summarize, found]
  rfl

/-- In a report, a single author is seen if there is one, or if no more were asked for. -/
theorem loneAuthor_mem_activity_of_survey (surveyed : survey around root plan = .ok report)
    (found : History.repositoryOf? around.disk around.objects? root = some repository)
    (looked : plan.noGit = false) (readable : repository.IsReadable) :
    loneAuthor ∈ Health.activity report.signals ↔
      (repository.identities.ncard = 1 ∨ plan.top = 1) ∧ 50 < repository.history.ncard := by
  have hhistory := history_of_survey surveyed found looked
  rw [Health.loneAuthor_mem_activity_iff (by rw [hhistory, History.isRepository_summary]), hhistory,
    History.totalCommits_summary readable]
  refine and_congr_left fun large => ?_
  exact History.length_contributors_eq_one_iff readable (by omega)

/-- **Which projects lose points for a single author.**  If the history of a project can be read, its
activity loses three points for a single author if and only if there are more than fifty commits, and
they are all by one author or a list of one contributor was asked for.  The rest of its activity only
depends on the commits in the activity window. -/
theorem loneAuthor_deducted_iff {around : Surroundings} {root : Path} {plan : Plan} {report : Report}
    {repository : Repository}
    (found : History.repositoryOf? around.disk around.objects? root = some repository)
    (readable : repository.IsReadable) (looked : plan.noGit = false)
    (surveyed : survey around root plan = .ok report) :
    (loneAuthor ∈ Health.activity report.signals ↔
      (repository.identities.ncard = 1 ∨ plan.top = 1) ∧ 50 < repository.history.ncard) ∧
    report.health.breakdown.activity =
      25 - Health.inactivityPoints report.history.recentCommits -
        if loneAuthor ∈ Health.activity report.signals then 3 else 0 := by
  constructor
  · exact loneAuthor_mem_activity_of_survey surveyed found looked readable
  · obtain ⟨_, _, hhealth⟩ := exists_signals_of_survey surveyed
    rw [hhealth]
    refine Health.categoryScore_activity ?_
    rw [history_of_survey surveyed found looked]
    exact History.isRepository_summary

/-! ### A list of one contributor for two authors -/

/-- A project with one file, and with a repository that has this history. -/
def turnsDisk : FileSystem.Disk where
  root :=
    .directory [0x70]
      (.directory gitName
        (.file "HEAD".toUTF8.toList (numberedId 50).toUTF8
          (.directory "objects".toUTF8.toList .empty (.directory "refs".toUTF8.toList .empty .empty)))
        (.file [0x61] .empty .empty))
      .empty
  working := []

/-- The path of this project. -/
def turnsRoot : Path := ⟨[0x2F, 0x70]⟩

/-- The directory of its repository. -/
def turnsDirectory : Directory := ⟨[[0x70], gitName], [[0x70], gitName]⟩

/-- What a survey of this project finds around it. -/
def turnsAround : Surroundings where
  disk := turnsDisk
  objects? := some
    { place := [[0x70], gitName, "objects".toUTF8.toList]
      commits := turns.commits }
  now := ((0 : Int) : Calendar.Moment)

/-- A plan in which a list of one contributor is asked for. -/
def planOfOne : Plan where
  format := .json
  top := 1
  todoTop := 0
  workers := standardWorkers
  noGit := false
  checkOutdated := false
  discovery := {}

/-- The sample is found on the disk that it lies on. -/
theorem repositoryOf?_turns :
    repositoryOf? turnsAround.disk turnsAround.objects? turnsRoot = some turns := by
  have hdirectory : directoryOf? turnsDisk turnsRoot = some turnsDirectory := by cbv
  have husable : turnsDirectory.isUsable turnsDisk = true := by cbv
  have hplace : FileSystem.resolve turnsDisk.root turnsDisk.working .follow
      (pathIn turnsDirectory.common "objects") = .ok [[0x70], gitName, "objects".toUTF8.toList] := by
    cbv
  have hcommits : commitsOf turnsDisk turnsAround.objects? turnsDirectory = turns.commits := by
    simp only [commitsOf, turnsAround, hplace]
    rfl
  have hhead : turnsDirectory.head? turnsDisk = some (numberedId 50) := by cbv
  have hreferences : turnsDirectory.references turnsDisk = [] := by cbv
  have hdisk : turnsAround.disk = turnsDisk := rfl
  rw [repositoryOf?, hdisk, hdirectory, Option.filter_some, if_pos husable, Option.map_some, hcommits,
    hhead, hreferences]
  rfl

/-- The disk can be surveyed. -/
theorem exists_survey_turns : ∃ report, survey turnsAround turnsRoot planOfOne = .ok report := by
  have hfound : (Discovery.files turnsDisk turnsRoot {}).toOption.any fun files => files ≠ [] := by cbv
  cases listed : Discovery.files turnsDisk turnsRoot {} with
  | error fault =>
    rw [listed] at hfound
    cases hfound
  | ok files =>
    rw [listed] at hfound
    refine exists_survey ?_ listed
    simpa [Except.toOption] using hfound

/-- Two authors have taken turns, and points are taken off for a single one, since no more than one was
asked for. -/
theorem loneAuthor_deducted_iff_turns :
    repositoryOf? turnsAround.disk turnsAround.objects? turnsRoot = some turns ∧ turns.IsReadable ∧
      planOfOne.noGit = false ∧ turns.identities.ncard = 2 ∧
      ∃ report, survey turnsAround turnsRoot planOfOne = .ok report ∧
        loneAuthor ∈ Health.activity report.signals ∧ report.health.breakdown.activity ≤ 22 := by
  obtain ⟨report, surveyed⟩ := exists_survey_turns
  obtain ⟨deducted, points⟩ := loneAuthor_deducted_iff repositoryOf?_turns isReadable_turns rfl surveyed
  have alone : loneAuthor ∈ Health.activity report.signals := by
    refine deducted.2 ⟨.inr rfl, ?_⟩
    rw [ncard_history_turns]
    decide
  rw [if_pos alone] at points
  exact ⟨repositoryOf?_turns, isReadable_turns, rfl, ncard_identities_turns, report, surveyed, alone,
    by omega⟩

/-- Two authors are mistaken for a single one. -/
theorem not_loneAuthor_turns :
    ¬ ∀ report, survey turnsAround turnsRoot planOfOne = .ok report →
      (loneAuthor ∈ Health.activity report.signals ↔
        turns.identities.ncard = 1 ∧ 50 < turns.history.ncard) := by
  intro law
  obtain ⟨report, surveyed⟩ := exists_survey_turns
  have deducted := loneAuthor_mem_activity_of_survey surveyed repositoryOf?_turns rfl isReadable_turns
  have large : 50 < turns.history.ncard := by
    rw [ncard_history_turns]
    decide
  have single : turns.identities.ncard = 1 := ((law report surveyed).1 (deducted.2 ⟨.inr rfl, large⟩)).1
  rw [ncard_identities_turns] at single
  exact absurd single (by decide)

end Analysis
end CodeCensus
