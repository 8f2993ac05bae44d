import CodeCensus.Text.Fold

/-!
# Report formats

A report is written as text for people or as JSON for programs.
-/

namespace CodeCensus.Report

/-- The formats of a report. -/
inductive Format where
  | text
  | json
  deriving DecidableEq, Repr

/-- A name that stands for no format. -/
structure UnknownFormat where
  name : String
  deriving DecidableEq, Repr

/-- What is said about a name that stands for no format. -/
def UnknownFormat.message (unknown : UnknownFormat) : String :=
  "Unknown format '" ++ unknown.name ++ "'. Valid formats: text, json"

namespace Format

/-- The name under which a format is shown. -/
def name : Format → String
  | text => "text"
  | json => "json"

/-- The names of the formats in lower case. -/
def names : List (String × Format) :=
  [("text", text), ("txt", text), ("terminal", text), ("json", json)]

/-- The format that a name stands for, whatever its case. -/
def ofName (name : String) : Except UnknownFormat Format :=
  match names.lookup (Text.fold name) with
  | some format => .ok format
  | none => .error ⟨name⟩

end Format

end CodeCensus.Report
