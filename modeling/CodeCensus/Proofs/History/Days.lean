import CodeCensus.Proofs.Calendar.Order
import CodeCensus.Proofs.History.Interrupted
import CodeCensus.Proofs.Sorting
import Mathlib

/-!
# The days of a history

The commits of the activity window are gathered under the texts of their dates, and the entries are put in
the order of these texts.  What is wanted is a table of days in the order of the calendar
(`activityOf_eq_map`).  This is the same thing as long as the texts of dates are in the order of the days,
that is, in the years 0 to 9999.

The first and the last date of the summary are those of the earliest and the latest author time in the
whole history, whereas an entry has the date of some author time in it.  So every entry lies between them
(`activity_in_order`).
-/

namespace CodeCensus.History

open Calendar (Instant HasPlainYear)

variable {times : List Int}

/-! ### The table of days -/

/-- The activity has the entries that are gathered day by day, in another order. -/
theorem activityOf_perm (times : List Int) :
    (activityOf times).Perm (Ranking.gather DayActivity.date Calendar.dateText
      (fun time => ⟨Calendar.dateText time, 1⟩) (fun _ d => { d with commits := d.commits + 1 }) times) :=
  List.mergeSort_perm _ _

/-- No day has two entries. -/
theorem nodup_map_activityOf (times : List Int) : ((activityOf times).map DayActivity.date).Nodup := by
  rw [((activityOf_perm times).map _).nodup_iff]
  refine Ranking.nodup_map_gather ?_ ?_ times
  · exact fun _ => rfl
  · exact fun _ _ => rfl

/-- The entries have the dates of the times. -/
theorem mem_map_activityOf {date : String} :
    date ∈ (activityOf times).map DayActivity.date ↔ date ∈ times.map Calendar.dateText := by
  rw [((activityOf_perm times).map _).mem_iff]
  refine Ranking.mem_map_gather ?_ ?_
  · exact fun _ => rfl
  · exact fun _ _ => rfl

/-- An entry has the number of times of its date. -/
theorem commits_eq_of_mem_activityOf {entry : DayActivity} (mem : entry ∈ activityOf times) :
    entry.commits = times.countP fun time => Calendar.dateText time = entry.date := by
  have hsum : entry.commits =
      ((times.filter fun time => Calendar.dateText time = entry.date).map fun _ => 1).sum := by
    refine Ranking.weight_eq_of_mem_gather ?_ ?_ ?_ ((activityOf_perm times).mem_iff.1 mem)
    · exact fun _ => rfl
    · exact fun _ _ => rfl
    · exact fun _ _ _ => rfl
  rw [hsum, List.countP_eq_length_filter]
  simp

/-- The dates of the table ascend. -/
theorem pairwise_activityOf (times : List Int) :
    ((activityOf times).map DayActivity.date).Pairwise (· < ·) := by
  have hsorted : (activityOf times).Pairwise fun a b => a.date ≤ b.date :=
    Sorting.pairwise_mergeSort_decide (fun a b : DayActivity => a.date ≤ b.date) (fun _ _ _ => le_trans)
      (fun a b => le_total a.date b.date) _
  have hdifferent := nodup_map_activityOf times
  rw [List.Nodup, List.pairwise_map] at hdifferent
  rw [List.pairwise_map]
  refine (hsorted.and hdifferent).imp ?_
  rintro a b ⟨hle, hne⟩
  exact lt_of_le_of_ne hle hne

/-- **The table is one of days in the order of the calendar**, if the times lie in plain years: it has an
entry for each day of some time, with the number of times in this day. -/
theorem activityOf_eq_map (plain : ∀ time ∈ times, HasPlainYear time) :
    ∃ days : List Int, days.Pairwise (· < ·) ∧
      (∀ day, day ∈ days ↔ ∃ time ∈ times, Calendar.dayOfSecond time = day) ∧
      activityOf times = days.map fun day => ⟨String.ofList (Calendar.dateOfDay day).text,
        times.countP fun time => Calendar.dayOfSecond time = day⟩ := by
  have htime : ∀ entry ∈ activityOf times, ∃ time ∈ times, Calendar.dateText time = entry.date :=
    fun entry mem => List.mem_map.1 (mem_map_activityOf.1 (List.mem_map_of_mem mem))
  choose! timeOf hmem hdate using htime
  refine ⟨(activityOf times).map fun entry => Calendar.dayOfSecond (timeOf entry), ?_, fun day => ?_, ?_⟩
  · have hsorted := pairwise_activityOf times
    rw [List.pairwise_map] at hsorted ⊢
    refine hsorted.imp_of_mem fun {a b} ha hb lt => ?_
    rw [← hdate a ha, ← hdate b hb] at lt
    exact (Calendar.dateText_lt_iff (plain _ (hmem a ha)) (plain _ (hmem b hb))).1 lt
  · rw [List.mem_map]
    constructor
    · rintro ⟨entry, mem, rfl⟩
      exact ⟨timeOf entry, hmem entry mem, rfl⟩
    · rintro ⟨time, mem, rfl⟩
      -- The time may be another one than that from which the entry has its date.
      obtain ⟨entry, hentry, same⟩ :=
        List.mem_map.1 (mem_map_activityOf.2 (List.mem_map_of_mem mem))
      refine ⟨entry, hentry, ?_⟩
      rw [← Calendar.dateText_eq_iff (plain _ (hmem entry hentry)) (plain _ mem), hdate entry hentry,
        same]
  · rw [List.map_map]
    refine ((List.map_congr_left fun entry mem => ?_).trans (List.map_id _)).symm
    have hcount : entry.commits =
        times.countP fun time => Calendar.dayOfSecond time = Calendar.dayOfSecond (timeOf entry) := by
      rw [commits_eq_of_mem_activityOf mem]
      refine List.countP_congr fun time htime => ?_
      rw [decide_eq_true_eq, decide_eq_true_eq, ← hdate entry mem]
      exact Calendar.dateText_eq_iff (plain _ htime) (plain _ (hmem entry mem))
    exact (DayActivity.mk.injEq _ _ _ _).mpr ⟨hdate entry mem, hcount.symm⟩

/-! ### The days of a summary -/

namespace Repository

/-- The commits in the activity window whose author time lies in a day. -/
def recentOn (repository : Repository) (now : Instant) (day : Int) : Set (CommitId × Commit) :=
  {entry ∈ repository.recent now | Calendar.dayOfSecond entry.2.author.time = day}

/-- A day with the number of commits in the activity window on it. -/
noncomputable def dayEntry (repository : Repository) (now : Instant) (day : Int) : DayActivity :=
  ⟨String.ofList (Calendar.dateOfDay day).text, (repository.recentOn now day).ncard⟩

end Repository

variable {repository : Repository} {commits : List Commit} {now : Instant}

/-- The table of the activity window has the days of its commits. -/
theorem activityOf_recent (now : Instant) (visits : repository.Visits commits)
    (plain : ∀ entry ∈ repository.history, HasPlainYear entry.2.author.time) :
    ∃ days : List Int, days.Pairwise (· < ·) ∧
      (∀ day, day ∈ days ↔ (repository.recentOn now day).Nonempty) ∧
      activityOf ((commits.filter (isRecent now)).map (·.author.time)) =
        days.map (repository.dayEntry now) := by
  have hplain : ∀ time ∈ (commits.filter (isRecent now)).map (·.author.time), HasPlainYear time := by
    intro time mem
    obtain ⟨commit, hcommit, rfl⟩ := List.mem_map.1 mem
    obtain ⟨id, hid⟩ := visits.mem_iff.1 (List.mem_of_mem_filter hcommit)
    exact plain (id, commit) hid
  -- The window and the day are one condition on the commits of the history.
  have hset : ∀ day, repository.recentOn now day = {entry ∈ repository.history |
      (isRecent now entry.2 && decide (Calendar.dayOfSecond entry.2.author.time = day)) = true} := by
    intro day
    ext entry
    rw [Set.mem_ofPred_eq, Bool.and_eq_true, isRecent_iff, decide_eq_true_eq, ← and_assoc]
    rfl
  obtain ⟨days, ascending, hdays, htable⟩ := activityOf_eq_map hplain
  refine ⟨days, ascending, fun day => ?_, ?_⟩
  · rw [hdays, hset]
    constructor
    · rintro ⟨time, mem, rfl⟩
      obtain ⟨commit, hcommit, rfl⟩ := List.mem_map.1 mem
      obtain ⟨id, hid⟩ := visits.mem_iff.1 (List.mem_of_mem_filter hcommit)
      exact ⟨(id, commit), hid, by simpa using List.of_mem_filter hcommit⟩
    · rintro ⟨⟨id, commit⟩, hid, kind⟩
      obtain ⟨recent, hday⟩ := Bool.and_eq_true_iff.1 kind
      have hcommit := List.mem_filter.2 ⟨visits.mem_iff.2 ⟨id, hid⟩, recent⟩
      exact ⟨commit.author.time, List.mem_map_of_mem hcommit, of_decide_eq_true hday⟩
  · rw [htable]
    refine List.map_congr_left fun day _ => ?_
    have hcount := visits.countP_eq_ncard fun commit =>
      isRecent now commit && decide (Calendar.dayOfSecond commit.author.time = day)
    rw [Repository.dayEntry, hset, ← hcount, List.countP_map, List.countP_filter]
    congr 2
    funext commit
    exact Bool.and_comm _ _

/-- Two commits in the activity window have an entry of the table in common if and only if they are of
one day. -/
theorem exists_entry_iff {days : List Int}
    (hdays : ∀ day, day ∈ days ↔ (repository.recentOn now day).Nonempty)
    (plain : ∀ entry ∈ repository.history, HasPlainYear entry.2.author.time)
    {commit other : CommitId × Commit} (recent : commit ∈ repository.recent now)
    (recent' : other ∈ repository.recent now) :
    (∃ entry ∈ days.map (repository.dayEntry now),
      Calendar.dateText commit.2.author.time = entry.date ∧
        Calendar.dateText other.2.author.time = entry.date) ↔
      Calendar.dayOfSecond commit.2.author.time = Calendar.dayOfSecond other.2.author.time := by
  rw [← Calendar.dateText_eq_iff (plain commit recent.1) (plain other recent'.1)]
  constructor
  · rintro ⟨entry, -, same, same'⟩
    rw [same, same']
  · intro same
    refine ⟨repository.dayEntry now (Calendar.dayOfSecond commit.2.author.time), ?_, rfl, same.symm⟩
    exact List.mem_map_of_mem ((hdays _).2 ⟨commit, recent, rfl⟩)

/-! ### The first and the last date -/

namespace Repository.Visits

/-- A history with a time has an earliest one. -/
theorem exists_isLeast (visits : repository.Visits commits) (nonempty : repository.times.Nonempty) :
    ∃ time, IsLeast repository.times time := by
  obtain ⟨some, mem⟩ := nonempty
  obtain ⟨time, least⟩ := Option.isSome_iff_exists.1 (List.isSome_min?_of_mem (visits.mem_authorTimes.2 mem))
  exact ⟨time, visits.min?_eq_some_iff.1 least⟩

/-- A history with a time has a latest one. -/
theorem exists_isGreatest (visits : repository.Visits commits) (nonempty : repository.times.Nonempty) :
    ∃ time, IsGreatest repository.times time := by
  obtain ⟨some, mem⟩ := nonempty
  obtain ⟨time, greatest⟩ :=
    Option.isSome_iff_exists.1 (List.isSome_max?_of_mem (visits.mem_authorTimes.2 mem))
  exact ⟨time, visits.max?_eq_some_iff.1 greatest⟩

end Repository.Visits

/-- The date of a commit in the activity window lies between the first and the last date. -/
theorem Summary.Counts.dateText_between {summary : Summary} {top : Nat}
    (counts : summary.Counts repository top now) (visits : repository.Visits commits)
    (plain : ∀ entry ∈ repository.history, HasPlainYear entry.2.author.time)
    {entry : CommitId × Commit} (recent : entry ∈ repository.recent now) :
    ∃ first last, summary.firstCommit = some first ∧ summary.lastCommit = some last ∧
      first ≤ Calendar.dateText entry.2.author.time ∧ Calendar.dateText entry.2.author.time ≤ last := by
  have hplain : ∀ time ∈ repository.times, HasPlainYear time := by
    rintro time ⟨-, other, mem, rfl⟩
    exact plain other mem
  have hmem : entry.2.author.time ∈ repository.times := ⟨recent.2.1, entry, recent.1, rfl⟩
  obtain ⟨least, hleast⟩ := visits.exists_isLeast ⟨_, hmem⟩
  obtain ⟨greatest, hgreatest⟩ := visits.exists_isGreatest ⟨_, hmem⟩
  refine ⟨_, _, (counts.first _).2 ⟨least, hleast, rfl⟩, (counts.last _).2 ⟨greatest, hgreatest, rfl⟩, ?_, ?_⟩
  · rw [Calendar.dateText_le_iff (hplain least hleast.1) (hplain _ hmem)]
    exact Int.ediv_le_ediv (by decide) (hleast.2 hmem)
  · rw [Calendar.dateText_le_iff (hplain _ hmem) (hplain greatest hgreatest.1)]
    exact Int.ediv_le_ediv (by decide) (hgreatest.2 hmem)

/-! ### The activity of a summary -/

/-- **Daily activity is in calendar order.**  Let all author times lie in the years 0 to 9999.  Then the
dates of the activity ascend as texts, and they are the dates of ascending days: of the days with commits in
the activity window, each with the number of these commits, if the history can be read.  Two such commits
have their entry in common if and only if their author times lie in the same day, and the date of an entry
is neither before the first nor after the last date of the history.

All of this holds since texts of dates are in the order of the days, and these are the days of the Gregorian
calendar. -/
theorem activity_in_order {repository : Repository}
    (plain : ∀ entry ∈ repository.history, HasPlainYear entry.2.author.time) (top : Nat) (now : Instant) :
    ((repository.summary top now).recentActivity.map DayActivity.date).Pairwise (· < ·) ∧
    (∃ days : List Int,
      days.Pairwise (fun day later =>
        day < later ∧ (Calendar.dateOfDay day).Before (Calendar.dateOfDay later)) ∧
      (repository.IsReadable → ∀ day, day ∈ days ↔ (repository.recentOn now day).Nonempty) ∧
      (repository.summary top now).recentActivity = days.map (repository.dayEntry now)) ∧
    (repository.IsReadable → ∀ commit ∈ repository.recent now, ∀ other ∈ repository.recent now,
      (∃ entry ∈ (repository.summary top now).recentActivity,
        Calendar.dateText commit.2.author.time = entry.date ∧
          Calendar.dateText other.2.author.time = entry.date) ↔
      commit.2.author.time / 86400 = other.2.author.time / 86400) ∧
    (∀ entry ∈ (repository.summary top now).recentActivity, ∃ first last,
      (repository.summary top now).firstCommit = some first ∧
      (repository.summary top now).lastCommit = some last ∧ first ≤ entry.date ∧ entry.date ≤ last) ∧
    (∀ seconds other, HasPlainYear seconds → HasPlainYear other →
      (Calendar.dateText seconds < Calendar.dateText other ↔ seconds / 86400 < other / 86400)) ∧
    Calendar.dateOfDay 0 = ⟨1970, 1, 1⟩ ∧
    ∀ day, Calendar.dateOfDay (day + 1) = (Calendar.dateOfDay day).next := by
  have hcalendar : ∀ seconds other, HasPlainYear seconds → HasPlainYear other →
      (Calendar.dateText seconds < Calendar.dateText other ↔ seconds / 86400 < other / 86400) :=
    fun _ _ hseconds hother => Calendar.dateText_lt_iff hseconds hother
  by_cases readable : repository.IsReadable
  · obtain ⟨commits, changes, visits, hsummary⟩ := exists_visits_summary readable top now
    have counts : (repository.summary top now).Counts repository top now := by
      rw [hsummary]
      exact summaryOf_counts visits
    have hactivity : (repository.summary top now).recentActivity =
        activityOf ((commits.filter (isRecent now)).map (·.author.time)) := by
      rw [hsummary]
      rfl
    obtain ⟨days, ascending, hdays, htable⟩ := activityOf_recent now visits plain
    rw [← hactivity] at htable
    refine ⟨?_, ⟨days, ?_, fun _ => hdays, htable⟩, fun _ commit hcommit other hother => ?_, ?_, hcalendar,
      rfl, Calendar.dateOfDay_succ⟩
    · rw [hactivity]
      exact pairwise_activityOf _
    · exact ascending.imp fun lt => ⟨lt, Calendar.before_dateOfDay lt⟩
    · rw [htable]
      exact exists_entry_iff hdays plain hcommit hother
    · intro entry mem
      rw [htable] at mem
      obtain ⟨day, hday, rfl⟩ := List.mem_map.1 mem
      obtain ⟨commit, recent, rfl⟩ := (hdays day).1 hday
      exact counts.dateText_between visits plain recent
  · obtain ⟨count, hsummary⟩ := summary_of_not_readable readable top now
    have hactivity : (repository.summary top now).recentActivity = [] := by
      rw [hsummary]
    rw [hactivity]
    refine ⟨List.Pairwise.nil, ⟨[], List.Pairwise.nil, fun read => absurd read readable, rfl⟩,
      fun read => absurd read readable, List.forall_mem_nil _, hcalendar, rfl, Calendar.dateOfDay_succ⟩

/-- A commit of Ada without files. -/
def commitOfAda (author committer : Int) (parents : List CommitId) : Commit :=
  let ada : Person := ⟨[0x41, 0x64, 0x61], [0x61]⟩
  ⟨⟨ada, author⟩, ⟨ada, committer⟩, parents, some []⟩

/-- The commits of a history, last one first, all of which were put in at the beginning of 1970.  Two of them
were made on a leap day, one on the day after it, and one in the year 0. -/
def leapDayWalk : List Commit :=
  [commitOfAda 951868800 400 ["evening"], commitOfAda 951868799 300 ["morning"],
    commitOfAda 951782400 200 ["before"], commitOfAda (-62167219200) 100 []]

/-- The repository with this history. -/
def leapDay : Repository where
  commits := ["after", "evening", "morning", "before"].zip leapDayWalk
  head? := some "after"

theorem walk?_leapDay : leapDay.walk? = some leapDayWalk := by
  cbv

/-- All of its commits are recent. -/
theorem exists_recent_leapDay : ∀ commit ∈ leapDayWalk,
    ∃ id, (id, commit) ∈ leapDay.recent ((500 : Int) : Instant) := by
  have hrecent : ∀ commit ∈ leapDayWalk, Calendar.representable commit.author.time ∧
      Calendar.representable commit.committer.time ∧
      ((500 : Int) : Instant).total - 30 * 86400 * 10 ^ 9 ≤ commit.committer.time * 10 ^ 9 := by
    decide
  intro commit mem
  obtain ⟨id, hid⟩ := (Repository.walk?_visits walk?_leapDay).mem_iff.1 mem
  exact ⟨id, hid, hrecent commit mem⟩

/-- The two commits of the leap day have their entry in common, but not with the commit of the next day,
although that one follows after a second. -/
theorem activity_in_order_leapDay :
    (∀ entry ∈ leapDay.history, HasPlainYear entry.2.author.time) ∧ leapDay.IsReadable ∧
      Calendar.dateText 951782400 = "2000-02-29" ∧ Calendar.dateText 951868800 = "2000-03-01" ∧
      (∃ entry ∈ (leapDay.summary 10 ((500 : Int) : Instant)).recentActivity,
        Calendar.dateText 951782400 = entry.date ∧ Calendar.dateText 951868799 = entry.date) ∧
      ¬ ∃ entry ∈ (leapDay.summary 10 ((500 : Int) : Instant)).recentActivity,
        Calendar.dateText 951868799 = entry.date ∧ Calendar.dateText 951868800 = entry.date := by
  have plain : ∀ entry ∈ leapDay.history, HasPlainYear entry.2.author.time := by
    have hwalk : ∀ commit ∈ leapDayWalk, HasPlainYear commit.author.time := by
      decide
    rintro ⟨id, commit⟩ mem
    exact hwalk commit ((Repository.walk?_visits walk?_leapDay).mem_iff.2 ⟨id, mem⟩)
  have readable : leapDay.IsReadable := by
    refine (Repository.isReadable_iff rfl).2 ⟨_, walk?_leapDay, ?_⟩
    cbv
  obtain ⟨_, after⟩ := exists_recent_leapDay (commitOfAda 951868800 400 ["evening"]) (by simp [leapDayWalk])
  obtain ⟨_, evening⟩ :=
    exists_recent_leapDay (commitOfAda 951868799 300 ["morning"]) (by simp [leapDayWalk])
  obtain ⟨_, morning⟩ :=
    exists_recent_leapDay (commitOfAda 951782400 200 ["before"]) (by simp [leapDayWalk])
  obtain ⟨-, -, common, -⟩ := activity_in_order plain 10 ((500 : Int) : Instant)
  refine ⟨plain, readable, by cbv, by cbv, ?_, ?_⟩
  · exact (common readable _ morning _ evening).2 rfl
  · have hdays : (951868799 : Int) / 86400 ≠ 951868800 / 86400 := by decide
    exact fun both => hdays ((common readable _ evening _ after).1 both)

end CodeCensus.History
