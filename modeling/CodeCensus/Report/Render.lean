import CodeCensus.Report.Format
import CodeCensus.Report.Json
import CodeCensus.Report.Text

/-!
# Rendering a report

Colour only makes a difference to text.
-/

namespace CodeCensus.Report

/-- A report in a format. -/
def render (r : Report) (format : Format) (colour : Bool) : String :=
  String.ofList <|
    match format with
    | .text => textReport r colour
    | .json => jsonReport r

end CodeCensus.Report
