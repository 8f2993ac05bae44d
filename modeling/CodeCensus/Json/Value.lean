/-!
# JSON values

The values that a JSON text describes. Numbers are kept as they are written, so that nothing is lost
before it is known what they are for, and so are the members of an object, in order and with
repetitions. A string may hold half of a surrogate pair, which stands for no character; such a string
has no text, and what that means is left to whoever needs the text.
-/

namespace CodeCensus.Json

/-! ### Numerals -/

/-- A number as it is written. -/
structure Numeral where
  negative : Bool := false
  /-- The digits before the point; there is at least one, and no zero in front of another. -/
  whole : List Char
  /-- The digits after the point; none if there is no point. -/
  fraction : List Char := []
  /-- The exponent, if there is one: whether it is negative, and its digits. -/
  exponent : Option (Bool × List Char) := none
  deriving DecidableEq, Repr

namespace Numeral

/-- Cut a list of characters after the digits in front of it. -/
def spanDigits (cs : List Char) : List Char × List Char :=
  cs.span Char.isDigit

/-- Read the exponent of a numeral, which is all that can be left of it. -/
def exponent? : List Char → Option (Option (Bool × List Char))
  | [] => some none
  | mark :: cs =>
    if mark == 'e' || mark == 'E' then
      let (negative, digits) :=
        match cs with
        | '-' :: ds => (true, ds)
        | '+' :: ds => (false, ds)
        | ds => (false, ds)
      if digits.isEmpty || !digits.all Char.isDigit then none
      else some (some (negative, digits))
    else none

/-- Read what follows the whole part of a numeral. -/
def tail? (negative : Bool) (whole : List Char) : List Char → Option Numeral
  | '.' :: cs =>
    let (fraction, rest) := spanDigits cs
    if fraction.isEmpty then none
    else (exponent? rest).map fun exponent => ⟨negative, whole, fraction, exponent⟩
  | rest => (exponent? rest).map fun exponent => ⟨negative, whole, [], exponent⟩

/-- Read a numeral from its sign on. -/
def unsigned? (negative : Bool) (cs : List Char) : Option Numeral :=
  match spanDigits cs with
  | ([], _) => none
  | ('0' :: _ :: _, _) => none
  | (whole, rest) => tail? negative whole rest

/-- Read a numeral. -/
def parse? : List Char → Option Numeral
  | '-' :: cs => unsigned? true cs
  | cs => unsigned? false cs

/-- The text of a numeral. -/
def text (n : Numeral) : List Char :=
  (if n.negative then ['-'] else []) ++ n.whole ++
    (if n.fraction.isEmpty then [] else '.' :: n.fraction) ++
    match n.exponent with
    | none => []
    | some (negative, digits) => 'e' :: (if negative then ['-'] else []) ++ digits

/-- The numeral of a natural number. -/
def ofNat (n : Nat) : Numeral :=
  { whole := Nat.toDigits 10 n }

end Numeral

/-- The number that a list of decimal digits stands for. -/
def natOfDigits (digits : List Char) : Nat :=
  digits.foldl (fun n d => 10 * n + (d.toNat - '0'.toNat)) 0

/-- The natural number that a numeral stands for, if it is written as one. -/
def Numeral.toNat? (n : Numeral) : Option Nat :=
  if n.negative = false ∧ n.fraction = [] ∧ n.exponent = none then some (natOfDigits n.whole)
  else none

/-! ### Values -/

/-- A JSON value. -/
inductive Value where
  | null
  | bool (value : Bool)
  | number (numeral : Numeral)
  /-- A string; no text if half of a surrogate pair stands in it. -/
  | string (text : Option String)
  | array (elements : List Value)
  | object (members : List (Option String × Value))

namespace Value

/-- A string with a text. -/
def text (s : String) : Value :=
  .string (some s)

/-- A natural number. -/
def nat (n : Nat) : Value :=
  .number (.ofNat n)

/-- An object with proper keys. -/
def record (members : List (String × Value)) : Value :=
  .object (members.map fun (key, value) => (some key, value))

end Value

end CodeCensus.Json
