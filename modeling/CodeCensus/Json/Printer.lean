import CodeCensus.Json.Value

/-!
# Writing JSON

The layout for people: every element and every member on a line of its own, two blanks deeper than
what it is in; an empty array or object on one line.
-/

namespace CodeCensus.Json

/-! ### Strings -/

/-- The escape of a character inside a string: a quote, a backslash and every control character has
one, and nothing else. -/
def escape (c : Char) : List Char :=
  match c with
  | '"' => ['\\', '"']
  | '\\' => ['\\', '\\']
  | '\x08' => ['\\', 'b']
  | '\x0C' => ['\\', 'f']
  | '\n' => ['\\', 'n']
  | '\r' => ['\\', 'r']
  | '\t' => ['\\', 't']
  | c =>
    if c.toNat < 0x20 then
      ['\\', 'u', '0', '0', Nat.digitChar (c.toNat / 16), Nat.digitChar (c.toNat % 16)]
    else [c]

/-- A string in quotes. -/
def quote (s : List Char) : List Char :=
  '"' :: s.flatMap escape ++ ['"']

/-- A key or a string in quotes. A string without a text cannot be written, and an empty one takes
its place. -/
def quoteText (text : Option String) : List Char :=
  quote (text.getD "").toList

/-! ### Layout -/

/-- The beginning of a line at the given depth. -/
def newLine (depth : Nat) : List Char :=
  '\n' :: List.replicate (2 * depth) ' '

mutual

/-- The text of a value that begins at the given depth. -/
def pretty (depth : Nat) : Value → List Char
  | .null => ['n', 'u', 'l', 'l']
  | .bool true => ['t', 'r', 'u', 'e']
  | .bool false => ['f', 'a', 'l', 's', 'e']
  | .number numeral => numeral.text
  | .string text => quoteText text
  | .array [] => ['[', ']']
  | .array (value :: rest) =>
    '[' :: newLine (depth + 1) ++ pretty (depth + 1) value ++ prettyElements (depth + 1) rest ++
      newLine depth ++ [']']
  | .object [] => ['{', '}']
  | .object ((key, value) :: rest) =>
    '{' :: newLine (depth + 1) ++ quoteText key ++ [':', ' '] ++ pretty (depth + 1) value ++
      prettyMembers (depth + 1) rest ++ newLine depth ++ ['}']

/-- The text of the elements after the first one. -/
def prettyElements (depth : Nat) : List Value → List Char
  | [] => []
  | value :: rest => ',' :: newLine depth ++ pretty depth value ++ prettyElements depth rest

/-- The text of the members after the first one. -/
def prettyMembers (depth : Nat) : List (Option String × Value) → List Char
  | [] => []
  | (key, value) :: rest =>
    ',' :: newLine depth ++ quoteText key ++ [':', ' '] ++ pretty depth value ++
      prettyMembers depth rest

end

end CodeCensus.Json
