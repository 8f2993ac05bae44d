/-!
# TOML values

The values that a TOML document describes. What is not needed of floats and of dates and times is kept
as text.
-/

namespace CodeCensus.Toml

/-- A TOML value. -/
inductive Value where
  | string (text : String)
  | integer (value : Int)
  | float (text : String)
  | boolean (value : Bool)
  /-- A date, a time of day, or both, in normal form. -/
  | datetime (text : String)
  | array (elements : List Value)
  | table (members : List (String × Value))

namespace Value

/-- The value of a member, if a value is a table that has it. -/
def member? (key : String) : Value → Option Value
  | table members => members.lookup key
  | _ => none

/-- The text of a string. -/
def text? : Value → Option String
  | string text => some text
  | _ => none

end Value

end CodeCensus.Toml
