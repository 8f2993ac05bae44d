import CodeCensus.Calendar.Instant
import CodeCensus.Health.Score

/-!
# Reports

Everything that is reported about a project.
-/

namespace CodeCensus

/-- The result of a census. -/
structure Report where
  projectName : String
  generatedAt : Calendar.Moment
  languages : Census.LanguageTable
  files : Census.FileTable
  markers : Census.MarkerTable
  history : History.Summary
  dependencies : Dependency.Summary
  health : Health.Score
  deriving DecidableEq, Repr

end CodeCensus
