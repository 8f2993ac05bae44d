import CodeCensus.Analysis.Plan
import CodeCensus.Dependency.Manifest
import CodeCensus.History.Account
import CodeCensus.Report.Census
import CodeCensus.Snapshot

/-!
# Surveys

A survey finds the files of a project, makes all tables from one snapshot of their contents, looks at
the history and the dependencies, and puts everything into a report.
-/

namespace CodeCensus.Analysis

/-- What a survey finds around it. -/
structure Surroundings where
  disk : FileSystem.Disk
  /-- The commits that are known, if any are. -/
  objects? : Option History.Objects := none
  /-- What the package manager prints about outdated packages, if it can be run. -/
  outdated? : Option String := none
  now : Calendar.Moment
  /-- Whether styles are shown. -/
  colour : Bool := false

/-- Why there is no report. -/
inductive Failure where
  | unusablePattern (fault : Discovery.PatternFault)
  | nothingFound
  deriving DecidableEq, Repr

/-- What is said where there is no report. -/
def Failure.message : Failure → String
  | unusablePattern fault => fault.message
  | nothingFound => "No files found to analyze"

/-- The name of the project in a directory: the name of the directory. -/
def projectName (root : Path) : String :=
  Text.lossy (root.fileName?.getD root.bytes)

/-- Everything that the health of a project is found from, for some files. -/
def signals (around : Surroundings) (root : Path) (plan : Plan) (files : List SourceFile) :
    Health.Signals :=
  let contents := (Snapshot.ofFiles around.disk files).contents
  { languages := .ofFiles contents files
    files := .ofFiles contents files plan.top
    markers := .ofFiles contents files plan.todoTop
    history :=
      if plan.noGit then {}
      else History.summarize around.disk around.objects? root plan.top around.now
    dependencies :=
      Dependency.summarize around.disk root plan.checkOutdated around.outdated? }

/-- The report about a project. -/
def survey (around : Surroundings) (root : Path) (plan : Plan) : Except Failure Report :=
  match Discovery.files around.disk root plan.discovery with
  | .error fault => .error (.unusablePattern fault)
  | .ok [] => .error .nothingFound
  | .ok files =>
    let found := signals around root plan files
    .ok
      { projectName := projectName root
        generatedAt := around.now
        languages := found.languages
        files := found.files
        markers := found.markers
        history := found.history
        dependencies := found.dependencies
        health := Health.score found }

end CodeCensus.Analysis
