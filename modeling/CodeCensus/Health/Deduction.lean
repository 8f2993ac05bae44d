import CodeCensus.Census.Files
import CodeCensus.Census.Languages
import CodeCensus.Census.Markers
import CodeCensus.Dependency.Summary
import CodeCensus.History.Summary

/-!
# Deductions

Each category of health starts from full marks, and every sign of trouble takes some away. A
deduction carries what is said about it: possibly an issue, and for some issues a piece of advice.
The deductions of a category come in a fixed order, which is the order in which they are reported.
-/

namespace CodeCensus.Health

/-! ### Deductions and signals -/

/-- Points taken off a category, with what is said about it. -/
structure Deduction where
  points : Int
  issue : Option String := none
  advice : Option String := none
  deriving DecidableEq, Repr

/-- Everything a score is computed from. -/
structure Signals where
  languages : Census.LanguageTable := {}
  files : Census.FileTable := {}
  markers : Census.MarkerTable := {}
  history : History.Summary := {}
  dependencies : Dependency.Summary := {}

/-- Points are counted in signed words of 32 bits, around whose ends they wrap. -/
def wordPoints (points : Int) : Int :=
  points.bmod (Nat.pow 2 32)

/-- A deduction that is made if a condition holds. -/
def deductIf (condition : Prop) [Decidable condition] (deduction : Deduction) : List Deduction :=
  if condition then [deduction] else []

/-! ### Code quality -/

/-- A file with more lines than this is large. -/
def largeFileLines : Nat := 500

/-- How many files of a ranking are large. -/
def largeFiles (files : Census.FileTable) : Nat :=
  files.largest.countP (largeFileLines < ·.lines)

/-- Two points for each large file, and never more than ten. -/
def largeFilePoints (count : Nat) : Int :=
  min (wordPoints (2 * count)) 10

/-- Too many large files; too few comments or too many. -/
def codeQuality (s : Signals) : List Deduction :=
  let large := largeFiles s.files
  let ratio := s.languages.totals.commentRatio
  deductIf (0 < large)
      ⟨largeFilePoints large, some (toString large ++ " files with >500 lines"),
        some "Consider splitting large files into smaller modules"⟩ ++
    if ratio < 0.05 then
      [⟨5, some "Very few comments in codebase", some "Add more documentation comments"⟩]
    else
      deductIf (ratio > 0.5)
        ⟨3, some "Excessive comments (may indicate commented-out code)", none⟩

/-! ### Maintenance -/

/-- The deduction for the number of markers. -/
def markerDebt (total : Nat) : List Deduction :=
  if 50 < total then
    [⟨15, some (toString total ++ " TODOs/FIXMEs - high tech debt"),
      some "Address TODO items to reduce tech debt"⟩]
  else if 20 < total then [⟨8, some (toString total ++ " TODOs/FIXMEs"), none⟩]
  else deductIf (10 < total) ⟨4, none, none⟩

/-- How many of the listed markers mark a known defect. -/
def criticalMarkers (markers : Census.MarkerTable) : Nat :=
  markers.items.countP (·.kind.isCritical)

/-- The deductions for the dependencies, if there are any. -/
def dependencyDebt (dependencies : Dependency.Summary) : List Deduction :=
  if 0 < dependencies.total then
    deductIf (dependencies.hasLockfile = false)
        ⟨5, some "No lockfile found",
          some "Add a lockfile (package-lock.json) for reproducible builds"⟩ ++
      deductIf (10 < dependencies.outdated)
        ⟨5, some (toString dependencies.outdated ++ " outdated dependencies"),
          some "Update outdated dependencies"⟩
  else []

/-- Too many markers, too many of them critical, dependencies that are not cared for. -/
def maintenance (s : Signals) : List Deduction :=
  let critical := criticalMarkers s.markers
  markerDebt s.markers.total ++
    deductIf (5 < critical)
      ⟨5, some (toString critical ++ " critical issues (FIXME/BUG)"),
        some "Prioritize fixing BUG and FIXME items"⟩ ++
    dependencyDebt s.dependencies

/-! ### Documentation -/

/-- No documentation files; hardly any comments. -/
def documentation (s : Signals) : List Deduction :=
  deductIf (s.languages.has "Markdown" = false)
      ⟨10, some "No markdown documentation found", some "Add a README.md file"⟩ ++
    deductIf (s.languages.totals.commentRatio < 0.1) ⟨5, none, none⟩

/-! ### Activity -/

/-- The deduction for the number of commits in the activity window. -/
def inactivity (recent : Nat) : List Deduction :=
  if recent = 0 then
    [⟨10, some "No commits in the last 30 days", some "Repository appears inactive"⟩]
  else deductIf (recent < 5) ⟨5, some "Low commit activity in the last 30 days", none⟩

/-- No repository; or few commits lately, or a single author of many. -/
def activity (s : Signals) : List Deduction :=
  if s.history.isRepository then
    inactivity s.history.recentCommits ++
      deductIf (s.history.contributors.length = 1 ∧ 50 < s.history.totalCommits)
        ⟨3, some "Single contributor on a large project", none⟩
  else [⟨15, some "Not a git repository", some "Initialize git for version control"⟩]

end CodeCensus.Health
