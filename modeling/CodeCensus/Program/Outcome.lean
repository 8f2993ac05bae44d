import CodeCensus.Analysis.Survey
import CodeCensus.Report.Styled

/-!
# Outcomes

What a run of the program leaves behind: the disk as it is afterwards, what is printed, and why the run
failed if it did.
-/

namespace CodeCensus.Program

open FileSystem (Disk)
open Report (Styled)

/-- Why a run fails. -/
inductive Failure where
  /-- A word that stands for no command and no path. -/
  | unknownCommand (name : String)
  /-- A path to analyze that leads nowhere. -/
  | missingProject (path : String)
  /-- A path to set up that leads nowhere. -/
  | missingDirectory (path : String)
  | notDirectory (place : Path)
  | unknownFormat (unknown : Report.UnknownFormat)
  | noReport (failure : Analysis.Failure)
  | unwritableReport (path : String)
  | unwritableConfig (path : Path)
  /-- A configuration that has been written and is none. -/
  | unusableConfig (error : Config.Error)
  deriving DecidableEq, Repr

/-- What is said about a run that fails. -/
def Failure.message : Failure → String
  | unknownCommand name =>
    "Unknown command '" ++ name ++ "'. Run 'codestat --help' for available commands.\n\n" ++
      "Did you mean one of: init, analyze?"
  | missingProject path => "Repository path does not exist: " ++ path
  | missingDirectory path => "Path does not exist: " ++ path
  | notDirectory place => "Path is not a directory: " ++ Text.lossy place.bytes
  | unknownFormat unknown => unknown.message
  | noReport failure => failure.message
  | unwritableReport path => "Failed to write report to " ++ path
  | unwritableConfig path => "Failed to create " ++ Text.lossy path.bytes
  | unusableConfig error => error.message

/-- What a run leaves behind. -/
structure Outcome where
  /-- The disk afterwards. -/
  disk : Disk
  output : String := ""
  /-- What is printed beside the output. -/
  notices : String := ""
  /-- Whether the output ends with the time that the run took. -/
  timed : Bool := false
  failure? : Option Failure := none

/-- A text as it is printed, with its styles or without them. -/
def shown (colour : Bool) (text : Styled) : String :=
  String.ofList (if colour then text.coloured else text.uncoloured)

/-- All of the output of a run that took the given number of seconds. -/
def Outcome.outputAfter (outcome : Outcome) (colour : Bool) (seconds : String) : String :=
  if outcome.timed then
    outcome.output ++ shown colour (Styled.paint .bold "✨ ") ++ "Analysis completed in " ++ seconds ++
      "s\n"
  else outcome.output

/-- The directory that a path leads to, as an absolute path without links; nothing if the path leads
nowhere. -/
def canonical? (disk : Disk) (path : String) : Option Path :=
  match FileSystem.resolve disk.root disk.working .follow (Path.ofString path) with
  | .ok place => some (FileSystem.pathOf place)
  | .error _ => none

end CodeCensus.Program
