/-!
# Scanners

A scanner reads something off the front of a text and leaves the rest, or fails. After a failure the
text is what it was, so a scanner can always be tried before another one.
-/

namespace CodeCensus.Text

/-- A scanner for values of a type. -/
abbrev Scanner (α : Type) := StateT (List Char) Option α

namespace Scanner

variable {α β : Type}

/-- Read one character of a class. -/
def satisfy (p : Char → Bool) : Scanner Char
  | [] => none
  | c :: rest => if p c then some (c, rest) else none

/-- Read the given character. -/
def char (c : Char) : Scanner Unit
  | [] => none
  | d :: rest => if d = c then some ((), rest) else none

/-- Read the given characters. -/
def chars : List Char → Scanner Unit
  | [] => pure ()
  | c :: cs => do char c; chars cs

/-- Read all characters of a class that come next. -/
def takeWhile (p : Char → Bool) : Scanner (List Char)
  | text => some (text.span p)

/-- Read characters of a class, at least one. -/
def takeWhile1 (p : Char → Bool) : Scanner (List Char) := do
  let first ← satisfy p
  return first :: (← takeWhile p)

/-- Read exactly so many characters of a class. -/
def exactly (p : Char → Bool) : Nat → Scanner (List Char)
  | 0 => pure []
  | n + 1 => do
    let first ← satisfy p
    return first :: (← exactly p n)

/-- Read with a scanner if it does not fail. -/
def maybe (p : Scanner α) : Scanner (Option α)
  | text =>
    match p text with
    | some (a, rest) => some (some a, rest)
    | none => some (none, text)

/-- Succeed at the end of the text. -/
def atEnd : Scanner Unit
  | [] => some ((), [])
  | _ :: _ => none

/-- Succeed if the next character is of a class, without reading it. -/
def before (p : Char → Bool) : Scanner Unit
  | [] => none
  | c :: rest => if p c then some ((), c :: rest) else none

/-- Read with a scanner until it fails, at most so many times. -/
def upTo (p : Scanner α) : Nat → Scanner (List α)
  | 0 => pure []
  | n + 1 => fun text =>
    match p text with
    | some (a, rest) => (upTo p n rest).map fun (as, left) => (a :: as, left)
    | none => some ([], text)

/-- Read with a scanner until it fails. A scanner that reads at least one character each time cannot
succeed more often than the text has characters. -/
def many (p : Scanner α) : Scanner (List α) :=
  fun text => upTo p text.length text

/-- Read with a scanner, and again after each separator. -/
def separated (p : Scanner α) (separator : Scanner β) : Scanner (List α) := do
  let first ← p
  return first :: (← many do let _ ← separator; p)

/-- What a scanner makes of a whole text. -/
def run? (p : Scanner α) (text : List Char) : Option α :=
  match p text with
  | some (a, []) => some a
  | _ => none

end Scanner

end CodeCensus.Text
