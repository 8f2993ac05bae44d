import CodeCensus.Toml.Scalars

/-!
# Values of any kind

Where a value of any kind is accepted, a date or time may also come in the form of a table, with its text
under a key that is kept for this purpose. A table is taken for one if that key is its first. The text is
read a little more freely than in a document, but it has to be a date, a time or both. What else is in
the table does not count.
-/

namespace CodeCensus.Toml

open Text (Scanner)
open Text.Scanner

/-- The key under which a table has the text of a date or time. -/
def datetimeKey : String := "$__toml_private_datetime"

/-! ### Texts of dates and times -/

/-- A time of day, where the hour may be that of midnight at the end of the day. -/
def looseTime : Scanner Unit := do
  let _ ← field 2 0 24
  char ':'
  let _ ← field 2 0 59
  char ':'
  let _ ← field 2 0 60
  let _ ← maybe do char '.'; takeWhile1 Char.isDigit

/-- The minutes of a day. -/
def dayMinutes : Nat := 24 * 60

/-- A distance from universal time of up to one day. -/
def looseOffset : Scanner Unit :=
  (do let _ ← satisfy fun c => c == 'Z' || c == 'z') <|> do
    let _ ← satisfy fun c => c == '+' || c == '-'
    let hours ← exactly Char.isDigit 2
    char ':'
    let minutes ← exactly Char.isDigit 2
    if numberOf 10 hours * 60 + numberOf 10 minutes ≤ dayMinutes then pure () else failure

/-- A date, a time of day, or both with or without a distance from universal time. -/
def looseDatetime : Scanner Unit :=
  (do
    let _ ← date
    let _ ← maybe do
      let _ ← satisfy fun c => c == 'T' || c == 't' || c == ' '
      looseTime
      let _ ← maybe looseOffset) <|>
  looseTime

/-- The date or time of a text. -/
def datetimeOf? (text : String) : Option Value :=
  (looseDatetime.run? text.toList).map fun _ => .datetime text

/-! ### Reading a value as one of any kind -/

/-- Whether a table is a date or time by its first key. -/
def isDatetime : List (String × Value) → Bool
  | [] => false
  | (key, _) :: _ => key = datetimeKey

mutual

/-- A value with all its tables that are dates or times as such; nothing if one of them is none. -/
def Value.generic? : Value → Option Value
  | .array elements => (genericElements? elements).map .array
  | .table members =>
    if isDatetime members then (members.head?.bind fun (_, value) => value.text?).bind datetimeOf?
    else (genericMembers? members).map .table
  | value => some value

/-- The elements of an array, each read as a value of any kind. -/
def genericElements? : List Value → Option (List Value)
  | [] => some []
  | value :: rest => do return (← value.generic?) :: (← genericElements? rest)

/-- The members of a table, each read as a value of any kind. -/
def genericMembers? : List (String × Value) → Option (List (String × Value))
  | [] => some []
  | (key, value) :: rest => do return (key, ← value.generic?) :: (← genericMembers? rest)

end

end CodeCensus.Toml
