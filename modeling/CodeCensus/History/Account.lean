import CodeCensus.Calendar.Instant
import CodeCensus.History.Repository
import CodeCensus.History.Summary
import CodeCensus.Ranking

/-!
# Summarizing a history

Every table of the summary is made from the list of reachable commits. If the files of some commit are
lost, the tables are not made; what remains is the number of commits up to that one.
-/

namespace CodeCensus.History

/-! ### Contributors -/

/-- What a contributor is told apart by. -/
def Contributor.identity (contributor : Contributor) : String × String :=
  (contributor.name, contributor.email)

/-- What the author of a commit is told apart by. -/
def Commit.identity (commit : Commit) : String × String :=
  (commit.author.person.nameText, commit.author.person.emailText)

/-- The contributors behind some commits, in the order in which they are met. -/
def contributorsOf (commits : List Commit) : List Contributor :=
  Ranking.gather Contributor.identity Commit.identity
    (fun commit => ⟨commit.author.person.nameText, commit.author.person.emailText, 1⟩)
    (fun _ c => { c with commits := c.commits + 1 }) commits

/-- Contributors with more commits come first; those with equally many are in the order of their
names. -/
def Contributor.precedes (a b : Contributor) : Bool :=
  b.commits < a.commits || b.commits == a.commits && a.name ≤ b.name

/-! ### Files -/

/-- How a path is shown. -/
def shownPath (path : List UInt8) : String :=
  String.ofList ((Text.lossy path).toList.map fun c => if c = '\\' then '/' else c)

/-- The files behind some changes, in the order in which they are met. -/
def churnOf (paths : List String) : List FileChurn :=
  Ranking.gather FileChurn.file id (fun path => ⟨path, 1⟩)
    (fun _ f => { f with changes := f.changes + 1 }) paths

/-! ### Days -/

/-- The author times of some commits, as far as they are representable. -/
def authorTimes (commits : List Commit) : List Int :=
  (commits.map (·.author.time)).filter Calendar.representable

/-- Whether a commit lies in the activity window that ends now. The committer decides whether it does,
and the author on which day. -/
def isRecent (now : Calendar.Instant) (commit : Commit) : Bool :=
  Calendar.representable commit.author.time && Calendar.representable commit.committer.time &&
    (now.minusDays windowDays).isReachedBy commit.committer.time

/-- The days of some times with the number of times on each, earliest date first. -/
def activityOf (times : List Int) : List DayActivity :=
  let days := Ranking.gather DayActivity.date Calendar.dateText
    (fun time => ⟨Calendar.dateText time, 1⟩) (fun _ d => { d with commits := d.commits + 1 }) times
  days.mergeSort fun a b => a.date ≤ b.date

/-! ### The summary -/

/-- The number of entries in each list if none is given. -/
def standardTop : Nat := 10

/-- The contributors that are listed of a table. -/
def listed (top : Nat) (table : List Contributor) : List Contributor :=
  (table.mergeSort Contributor.precedes).take (Ranking.limit top standardTop)

/-- The summary of some commits with the paths that each of them changes. -/
def summaryOf (enumeration : Enumeration) (branches top : Nat) (now : Calendar.Instant)
    (commits : List Commit) (changes : List (List (List UInt8))) : Summary :=
  { isRepository := true
    totalCommits := commits.length
    contributors := listed top (enumeration.arrange (contributorsOf commits))
    fileChurn :=
      Ranking.top top standardTop FileChurn.changes (churnOf (changes.flatten.map shownPath))
    recentActivity := activityOf ((commits.filter (isRecent now)).map (·.author.time))
    firstCommit := (authorTimes commits).min?.map Calendar.dateText
    lastCommit := (authorTimes commits).max?.map Calendar.dateText
    branches }

/-- The summary of the history of a repository. -/
def Repository.summary (repository : Repository) (top : Nat) (now : Calendar.Instant) : Summary :=
  let empty : Summary := { isRepository := true, branches := repository.branches }
  match repository.walk? with
  | none => empty
  | some commits =>
    match commits.mapM repository.changes? with
    | some changes =>
      summaryOf repository.reading.enumeration repository.branches top now commits changes
    | none =>
      let whole := commits.takeWhile fun commit => (repository.changes? commit).isSome
      { empty with totalCommits := whole.length + 1 }

/-- The summary of the history at a path; the empty one if the path belongs to no repository. -/
def summarize (disk : FileSystem.Disk) (objects? : Option Objects) (path : Path) (top : Nat)
    (now : Calendar.Instant) : Summary :=
  match repositoryOf? disk objects? path with
  | none => {}
  | some repository => repository.summary top now

end CodeCensus.History
