import CodeCensus.Program.Outcome
import CodeCensus.Report.Render

/-!
# The command `analyze`

The report about a project is printed or written to a file. Beside a report as text there is a line in
front that says what is analyzed, and one behind it; a report as JSON stands alone.
-/

namespace CodeCensus.Program

open Report (Styled)
open Analysis (Surroundings Plan)

/-- What stands in front of a report. -/
def heading (colour : Bool) (root : Path) : String :=
  "\n" ++ shown colour (Styled.paint .bold "📊 ") ++ "Analyzing: " ++
    shown colour (Styled.paint .cyan (Text.lossy root.bytes)) ++ "\n\n"

/-- What is said about a report that has been written. -/
def writtenNotice (colour : Bool) (target : String) : String :=
  shown colour (Styled.paint .bold "📄 ") ++ "Report written to: " ++
    shown colour (Styled.paint .cyan target) ++ "\n"

/-- Make a report by a plan, and print or write it. -/
def deliver (around : Surroundings) (root : Path) (output : Option String) (plan : Plan) : Outcome :=
  let isText := plan.format == .text
  let front := if isText then heading around.colour root else ""
  match Analysis.survey around root plan with
  | .error failure => { disk := around.disk, output := front, failure? := some (.noReport failure) }
  | .ok report =>
    let text := Report.render report plan.format (around.colour && output.isNone)
    match output with
    | none => { disk := around.disk, output := front ++ text ++ "\n", timed := isText }
    | some target =>
      match around.disk.write (Path.ofString target) text.toUTF8 with
      | .error _ =>
        { disk := around.disk, output := front, failure? := some (.unwritableReport target) }
      | .ok disk =>
        { disk, output := front, notices := writtenNotice around.colour target, timed := isText }

/-- Analyze the project at a path. -/
def analyze (around : Surroundings) (path : String) (options : Analysis.Options) (workers : Nat) :
    Outcome :=
  let failed (failure : Failure) : Outcome := { disk := around.disk, failure? := some failure }
  match canonical? around.disk path with
  | none => failed (.missingProject path)
  | some root =>
    if around.disk.isDirectory root then
      match Plan.make options workers (Config.ofProject around.disk root) with
      | .error unknown => failed (.unknownFormat unknown)
      | .ok plan => deliver around root options.output plan
    else failed (.notDirectory root)

end CodeCensus.Program
