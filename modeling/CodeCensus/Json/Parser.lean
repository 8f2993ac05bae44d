import CodeCensus.Json.Token

/-!
# Reading JSON

The second pass puts the tokens of a JSON text together. What is carried along is the stack of the
arrays and objects that are open, innermost first, and what may come next.
-/

namespace CodeCensus.Json

/-! ### Open arrays and objects -/

/-- An array or object that waits for a value; what is already in it comes last entry first. -/
inductive Frame where
  | element (before : List Value)
  | member (before : List (Option String × Value)) (key : Option String)

/-- What may come next. -/
inductive Expect where
  /-- A value. -/
  | value (stack : List Frame)
  /-- A first element or the end of an array. -/
  | firstElement (stack : List Frame)
  /-- A comma or the end of an array. -/
  | afterElement (elements : List Value) (stack : List Frame)
  /-- A first key or the end of an object. -/
  | firstKey (stack : List Frame)
  /-- A further key of an object. -/
  | nextKey (before : List (Option String × Value)) (stack : List Frame)
  /-- The colon after a key. -/
  | colon (before : List (Option String × Value)) (key : Option String) (stack : List Frame)
  /-- A comma or the end of an object. -/
  | afterMember (members : List (Option String × Value)) (stack : List Frame)
  /-- Nothing: the text is complete. -/
  | nothing (value : Value)

namespace Expect

/-- Put a complete value where it belongs. -/
def complete (value : Value) : List Frame → Expect
  | [] => .nothing value
  | .element before :: stack => .afterElement (value :: before) stack
  | .member before key :: stack => .afterMember ((key, value) :: before) stack

/-- Begin a value, which is complete at once if it is neither an array nor an object. -/
def begin? (stack : List Frame) : Token → Option Expect
  | .null => some (complete .null stack)
  | .bool b => some (complete (.bool b) stack)
  | .number numeral => some (complete (.number numeral) stack)
  | .string text => some (complete (.string text) stack)
  | .openSquare => some (.firstElement stack)
  | .openCurly => some (.firstKey stack)
  | _ => none

/-- Read the next token. -/
def next? (expect : Expect) (token : Token) : Option Expect :=
  match expect, token with
  | .value stack, token => begin? stack token
  | .firstElement stack, .closeSquare => some (complete (.array []) stack)
  | .firstElement stack, token => begin? (.element [] :: stack) token
  | .afterElement elements stack, .comma => some (.value (.element elements :: stack))
  | .afterElement elements stack, .closeSquare =>
    some (complete (.array elements.reverse) stack)
  | .firstKey stack, .closeCurly => some (complete (.object []) stack)
  | .firstKey stack, .string key => some (.colon [] key stack)
  | .nextKey before stack, .string key => some (.colon before key stack)
  | .colon before key stack, .colon => some (.value (.member before key :: stack))
  | .afterMember members stack, .comma => some (.nextKey members stack)
  | .afterMember members stack, .closeCurly =>
    some (complete (.object members.reverse) stack)
  | _, _ => none

end Expect

/-- The value that a list of tokens describes. -/
def ofTokens? (tokens : List Token) : Option Value :=
  match tokens.foldlM Expect.next? (.value []) with
  | some (.nothing value) => some value
  | _ => none

/-- The value that a text describes. -/
def parse? (text : List Char) : Option Value :=
  (tokens? text).bind ofTokens?

end CodeCensus.Json
