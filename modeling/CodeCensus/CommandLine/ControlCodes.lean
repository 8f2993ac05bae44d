/-!
# Control codes

What a terminal would show of a text. Most control characters are not shown, but those that part words
and lines are. An escape character begins a sequence that is not shown at all: a short one, a control
sequence, or a string that goes on until it is closed. A character that is no part of a sequence ends it
early and is shown.

The text is read character by character. Each one moves the terminal from one state to another, and is
shown or not.
-/

namespace CodeCensus.CommandLine.ControlCodes

/-- What a terminal is in the middle of. -/
inductive State where
  /-- Text that is shown. -/
  | text
  /-- A sequence of which only the escape character has come. -/
  | escape
  /-- A short sequence that needs a final character. -/
  | short
  /-- A control sequence. -/
  | control
  /-- A command to the system. -/
  | command
  /-- The beginning of a string for the device. -/
  | device
  /-- The numbers at the beginning of a string for the device. -/
  | numbers
  /-- What stands between the beginning of a string for the device and the string itself. -/
  | between
  /-- Any string but a command. -/
  | string
  deriving DecidableEq, Repr

/-- Whether a character that controls is shown all the same: it parts words or lines. -/
def isLayout (c : Char) : Bool :=
  c == '\t' || c == '\n' || c == '\x0c' || c == '\r'

/-- Whether a character leaves every sequence without being shown. -/
def cancels (c : Char) : Bool :=
  c == '\x18' || c == '\x1a'

/-- Whether the code of a character lies within bounds. -/
def within (low high : Char) (c : Char) : Bool :=
  low ≤ c && c ≤ high

/-- The state behind the escape character and one more character. -/
def afterEscape (c : Char) : State :=
  if within ' ' '/' c then .short
  else if c = '[' then .control
  else if c = ']' then .command
  else if c = 'P' then .device
  else if c = 'X' ∨ c = '^' ∨ c = '_' then .string
  else if within '0' '~' c then .text
  else .escape

/-- The state after one more character of the beginning of a string for the device. -/
def afterDevice (state : State) (c : Char) : State :=
  if within ' ' '/' c then .between
  else if within '@' '~' c then .string
  else if within '0' '?' c then
    match state with
    | .device => .numbers
    | .numbers => if within '0' ';' c then .numbers else .string
    | _ => .string
  else state

/-- Whether a character closes a string: one of its bytes is the code that does. -/
def closesString (c : Char) : Bool :=
  (String.utf8EncodeChar c).contains 0x9C

/-- The state after one more character, and whether the character is shown. -/
def next (state : State) (c : Char) : State × Bool :=
  if c = '\x1b' then (.escape, false)
  else if cancels c then (.text, false)
  else
    match state with
    | .text => (.text, within ' ' '~' c || '\x7f' < c || isLayout c)
    | .escape => if isLayout c then (.text, true) else (afterEscape c, false)
    | .short =>
      if isLayout c then (.text, true) else (if within '0' '~' c then .text else .short, false)
    | .control =>
      if isLayout c then (.text, true) else (if within '@' '~' c then .text else .control, false)
    | .command => (if c = '\x07' then .text else .command, false)
    | .device | .numbers | .between => (afterDevice state c, false)
    | .string => (if closesString c then .text else .string, false)

/-- What is shown of the rest of a text. -/
def stripFrom (state : State) : List Char → List Char
  | [] => []
  | c :: cs =>
    match next state c with
    | (state, true) => c :: stripFrom state cs
    | (state, false) => stripFrom state cs

/-- What is shown of a text. -/
def strip (text : String) : String :=
  String.ofList (stripFrom .text text.toList)

end CodeCensus.CommandLine.ControlCodes
