import CodeCensus.Config
import CodeCensus.Discovery
import CodeCensus.Report.Format

/-!
# Plans

What to do in an analysis. The options of the command line come first; where they say nothing, the
configuration of the project decides; and where that says nothing too, there is a standard.
-/

namespace CodeCensus.Analysis

/-- What the command line says about an analysis. -/
structure Options where
  format : Option String := none
  output : Option String := none
  ignore : List String := []
  languages : List String := []
  top : Option Nat := none
  todoTop : Option Nat := none
  noGit : Bool := false
  checkOutdated : Bool := false
  deriving DecidableEq, Repr

/-- The number of workers if none is given. -/
def standardWorkers : Nat := 8

/-- The largest number of workers. -/
def maxWorkers : Nat := 64

/-- What to do in an analysis. A length of zero stands for the standard length of a list. -/
structure Plan where
  format : Report.Format
  top : Nat
  todoTop : Nat
  workers : Nat
  noGit : Bool
  checkOutdated : Bool
  discovery : Discovery.Options
  deriving DecidableEq, Repr

namespace Plan

/-- The format that is asked for. -/
def formatOf (options : Options) (config : Config) : Except Report.UnknownFormat Report.Format :=
  match options.format <|> config.defaults.format with
  | some name => Report.Format.ofName name
  | none => .ok .text

/-- The number of workers. The standard number on the command line counts as none, since it cannot be
told from it; a number in the configuration is brought into its bounds. -/
def workersOf (workers : Nat) (config : Config) : Nat :=
  match config.defaults.workers with
  | some number => if workers = standardWorkers then min (max number 1) maxWorkers else workers
  | none => workers

/-- The patterns to pass over: those of the configuration, then those of the command line without blanks
around them, none of them twice. -/
def excludeOf (options : Options) (config : Config) : List String :=
  let extra := (options.ignore.map fun pattern => String.ofList (Text.trim pattern.toList)).filter
    (!·.isEmpty)
  extra.foldl addNew config.exclude.patterns

/-- The plan of an analysis. -/
def make (options : Options) (workers : Nat) (config : Config) : Except Report.UnknownFormat Plan := do
  let format ← formatOf options config
  let defaults := config.defaults
  pure
    { format
      top := (options.top <|> defaults.top).getD 0
      todoTop := (options.todoTop <|> defaults.todoTop).getD 0
      workers := workersOf workers config
      noGit := options.noGit || defaults.noGit.getD false
      checkOutdated := options.checkOutdated || defaults.checkOutdated.getD false
      discovery := ⟨excludeOf options config, options.languages⟩ }

end Plan

end CodeCensus.Analysis
