import CodeCensus.Dictionary
import CodeCensus.Json.Number
import CodeCensus.Json.Printer

/-!
# Compact JSON

A value on one line without blanks, with the members of every object in the order of their keys. Only
values that can be kept have such a text: every string in them must have a text, every number must be a
double at least, and they must not be nested too deeply.
-/

namespace CodeCensus.Json

/-- The most arrays and objects inside each other that a text may have for its values to be kept. -/
def maxNesting : Nat := 127

/-- Put commas between texts. -/
def commaSeparated (texts : List (List Char)) : List Char :=
  List.intercalate [','] texts

mutual

/-- The compact text of a value, within so many further levels of nesting. -/
def compact? (room : Nat) : Value → Option (List Char)
  | .null => some ['n', 'u', 'l', 'l']
  | .bool true => some ['t', 'r', 'u', 'e']
  | .bool false => some ['f', 'a', 'l', 's', 'e']
  | .number numeral => numeral.value?.map Number.text
  | .string text => text.map fun s => quote s.toList
  | .array elements =>
    if room = 0 then none
    else do
      let texts ← compactElements? (room - 1) elements
      return '[' :: commaSeparated texts ++ [']']
  | .object members =>
    if room = 0 then none
    else do
      let texts ← compactMembers? (room - 1) members
      let written := (Dictionary.ofList texts).map fun (key, text) => quote key.toList ++ ':' :: text
      return '{' :: commaSeparated written ++ ['}']

/-- The compact texts of the elements of an array. -/
def compactElements? (room : Nat) : List Value → Option (List (List Char))
  | [] => some []
  | value :: rest => do
    let text ← compact? room value
    return text :: (← compactElements? room rest)

/-- The compact texts of the members of an object, with their keys. -/
def compactMembers? (room : Nat) :
    List (Option String × Value) → Option (List (String × List Char))
  | [] => some []
  | (key, value) :: rest => do
    let text ← compact? room value
    return (← key, text) :: (← compactMembers? room rest)

end

end CodeCensus.Json
