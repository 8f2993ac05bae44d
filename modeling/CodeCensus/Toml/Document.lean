import CodeCensus.Toml.Scalars
import CodeCensus.Toml.Table

/-!
# TOML documents

A document is read in two steps. First it is read as a list of lines, each of which is blank, a header
or a key with a value; a value may itself take up several lines. Then the lines are carried out one
after the other on the table that is being built.
-/

namespace CodeCensus.Toml

open Text (Scanner)
open Text.Scanner

/-! ### Values -/

/-- A value that contains no other values. -/
def scalarValue : Scanner Value :=
  (.string <$> anyString) <|> datetime <|> finiteFloat <|> prefixedInteger <|> decimalInteger <|>
    specialFloat <|> (do chars ['t', 'r', 'u', 'e']; return .boolean true) <|>
    (do chars ['f', 'a', 'l', 's', 'e']; return .boolean false)

/-- An array of values, over any number of lines. -/
def array (value : Scanner Value) : Scanner Value := do
  char '['
  let element : Scanner Value := do
    gap
    let v ← value
    gap
    return v
  let elements ← maybe (separated element (char ','))
  if elements.isSome then
    let _ ← maybe (char ',')
  gap
  char ']'
  return .array (elements.getD [])

/-- A key with dots, an equals sign and a value: the names that lead to it, the last name, and the
value. -/
def assignment (value : Scanner Value) : Scanner (List String × String × Value) := do
  let keys ← dottedKey
  char '='
  blanks
  let v ← value
  match keys.getLast? with
  | some last => return (keys.dropLast, last, v)
  | none => failure

/-- A table on one line. -/
def inlineTable (value : Scanner Value) : Scanner Value := do
  char '{'
  let member : Scanner (List String × String × Value) := do
    let found ← assignment value
    blanks
    return found
  blanks
  let members ← maybe (separated member (char ','))
  blanks
  char '}'
  let table := (members.getD []).foldlM
    (fun (table : Table) (path, key, v) => table.insertValue path key v) {}
  match table with
  | some table => return table.toValue
  | none => failure

/-- A value, with room for so many levels of values inside values. -/
def valueWithin : Nat → Scanner Value
  | 0 => scalarValue
  | room + 1 => array (valueWithin room) <|> inlineTable (valueWithin room) <|> scalarValue

/-- A value. -/
def value : Scanner Value :=
  valueWithin (nestingLimit - 1)

/-! ### Lines -/

/-- A line of a document. -/
inductive Line where
  | blank
  /-- The header of a table. -/
  | header (path : List String) (key : String)
  /-- The header of a table of an array of tables. -/
  | elementHeader (path : List String) (key : String)
  /-- A value under a key. -/
  | assignment (path : List String) (key : String) (value : Value)

/-- A key between brackets. -/
def headerKey (opening closing : List Char) : Scanner (List String × String) := do
  chars opening
  let keys ← dottedKey
  chars closing
  match keys.getLast? with
  | some last => return (keys.dropLast, last)
  | none => failure

/-- What a line is, from its first character other than a blank on. -/
def lineBody : Scanner Line :=
  (do
    let (path, key) ← headerKey ['[', '['] [']', ']']
    trailing
    return .elementHeader path key) <|>
  (do
    let (path, key) ← headerKey ['['] [']']
    trailing
    return .header path key) <|>
  (do
    let (path, key, v) ← assignment value
    trailing
    return .assignment path key v) <|>
  (do
    comment
    lineEnd
    return .blank) <|>
  (do
    lineFeed
    return .blank)

/-- The lines of a document. A byte-order mark may stand in front. -/
def documentLines : Scanner (List Line) := do
  let _ ← maybe (char '\uFEFF')
  blanks
  let lines ← many do
    let line ← lineBody
    blanks
    return line
  return lines

/-! ### The table of a document -/

/-- The table so far, and the names in the header that stands last. -/
structure Building where
  root : Table := {}
  header : List String := []

/-- Carry a line out. -/
def Building.add (building : Building) : Line → Option Building
  | .blank => some building
  | .header path key =>
    (building.root.openTable path key).map (⟨·, path ++ [key]⟩)
  | .elementHeader path key =>
    (building.root.openElement path key).map (⟨·, path ++ [key]⟩)
  | .assignment path key v =>
    (building.root.insertUnder building.header path key v).map (⟨·, building.header⟩)

/-- The table that a text describes, if it is a document. -/
def parse? (text : List Char) : Option Value := do
  let lines ← run? documentLines text
  let building ← lines.foldlM Building.add {}
  return building.root.toValue

end CodeCensus.Toml
