/-!
# Removing escape sequences

A text that goes to a file or into a pipe is freed of escape sequences, wherever they come from. A
sequence begins with U+001B or U+009B and is taken as long as possible. What is recognised is either
a parenthesis and one of the characters `0`, `1`, `2`, `A` and `B`; or any number of the characters
`[`, `(`, `)`, `#`, `;` and `?`, then possibly a list of numbers of up to four digits with semicolons
between them, then a final character. An introducer that no sequence follows is left where it stands.
-/

namespace CodeCensus.Report.Escapes

/-! ### One sequence -/

/-- How far a sequence has been read. -/
inductive State where
  /-- Only its first character. -/
  | begun
  /-- A parenthesis, and nothing else yet. -/
  | parenthesis
  /-- Some of the characters that may stand in front of the numbers. -/
  | opening
  /-- A number; the digit read last may also be the final character. -/
  | digits (count : Nat)
  /-- A semicolon after a number. -/
  | semicolon
  /-- A final character. -/
  | complete
  deriving DecidableEq, Repr

/-- Whether a sequence may end here. -/
def State.isFinal : State → Bool
  | .digits _ | .complete => true
  | .begun | .parenthesis | .opening | .semicolon => false

/-- Whether a character begins a sequence. -/
def isIntroducer (c : Char) : Bool :=
  c == '\x1b' || c == '\u009b'

/-- Whether a character other than a digit ends a sequence. -/
def endsSequence (c : Char) : Bool :=
  ('A' ≤ c && c ≤ 'P') || c == 'R' || c == 'Z' || c == 'c' || ('f' ≤ c && c ≤ 'n') || c == 'q' ||
    c == 'r' || c == 'y' || c == '=' || c == '>' || c == '<'

/-- The most digits that can be read one after the other: four of a number and a final one. -/
def maxDigits : Nat := 5

/-- Read one more character of a sequence, if it can belong to it. -/
def State.next? (state : State) (c : Char) : Option State :=
  if c == '(' || c == ')' then
    match state with
    | .begun => some .parenthesis
    | .parenthesis | .opening => some .opening
    | _ => none
  else if c == '[' || c == '#' || c == '?' then
    match state with
    | .begun | .parenthesis | .opening => some .opening
    | _ => none
  else if c == ';' then
    match state with
    | .begun | .parenthesis | .opening => some .opening
    | .digits n => if n < maxDigits then some .semicolon else none
    | .semicolon => some .semicolon
    | .complete => none
  else if c.isDigit then
    match state with
    -- After a single parenthesis, `0`, `1` and `2` are final characters and begin no number.
    | .parenthesis => if c ≤ '2' then some .complete else some (.digits 1)
    | .begun | .opening | .semicolon => some (.digits 1)
    | .digits n => if n < maxDigits then some (.digits (n + 1)) else none
    | .complete => none
  else if endsSequence c then
    match state with
    | .digits n => if n < maxDigits then some .complete else none
    | .complete => none
    | _ => some .complete
  else none

/-- The length of the longest sequence that goes on from a state, if one ends anywhere. So many
characters have been `read`, and `best` is the length of the longest one so far. -/
def longest (state : State) (read : Nat) (best : Option Nat) : List Char → Option Nat
  | [] => best
  | c :: cs =>
    match state.next? c with
    | none => best
    | some next => longest next (read + 1) (if next.isFinal then some (read + 1) else best) cs

/-- How many characters belong to the sequence behind an introducer, if there is one. -/
def lengthBehind? (cs : List Char) : Option Nat :=
  longest .begun 0 none cs

/-! ### A whole text -/

/-- A text without its escape sequences. -/
def strip : List Char → List Char
  | [] => []
  | c :: cs =>
    if isIntroducer c then
      match lengthBehind? cs with
      | some n => strip (cs.drop n)
      | none => c :: strip cs
    else c :: strip cs
termination_by cs => cs.length
decreasing_by all_goals simp +arith [List.length_drop]

end CodeCensus.Report.Escapes
