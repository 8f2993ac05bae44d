/-!
# What a history tells

The summary of a version history: who committed how often, which files change most, on which days of
the last month there were commits, and how far the history reaches back. Days are written
`YYYY-MM-DD`. The empty summary stands for a directory that is in no repository.
-/

namespace CodeCensus.History

/-- An author, told apart from others by name and e-mail together. -/
structure Contributor where
  name : String := ""
  email : String := ""
  commits : Nat := 0
  deriving DecidableEq, Repr

/-- How many commits changed a file. -/
structure FileChurn where
  file : String := ""
  changes : Nat := 0
  deriving DecidableEq, Repr

/-- The commits of one day. -/
structure DayActivity where
  date : String := ""
  commits : Nat := 0
  deriving DecidableEq, Repr

/-- The summary of a history. -/
structure Summary where
  isRepository : Bool := false
  totalCommits : Nat := 0
  contributors : List Contributor := []
  fileChurn : List FileChurn := []
  /-- One entry for each day with commits in the activity window, earliest day first. -/
  recentActivity : List DayActivity := []
  firstCommit : Option String := none
  lastCommit : Option String := none
  branches : Nat := 0
  deriving DecidableEq, Repr

/-- The length of the activity window in days. -/
def windowDays : Nat := 30

/-- The number of commits in the activity window, added up in 64 bits. -/
def Summary.recentCommits (summary : Summary) : Nat :=
  (summary.recentActivity.map DayActivity.commits).foldr (· + ·) 0 % Nat.pow 2 64

end CodeCensus.History
