import CodeCensus.Text.Scanner

/-!
# TOML strings and blanks

Four kinds of string: in double quotes, with escapes, or in single quotes, without; and either kind on
one line or, in three quotes, on several. Also the blanks, line ends and comments between other things.
-/

namespace CodeCensus.Toml

open Text (Scanner)
open Text.Scanner

/-! ### Blanks, line ends and comments -/

/-- The blanks within a line. -/
def isBlank (c : Char) : Bool :=
  c == ' ' || c == '\t'

/-- The characters that may stand in comments and strings: all but the control characters, of which
the tabulator is allowed. -/
def isPlain (c : Char) : Bool :=
  c == '\t' || (0x20 ≤ c.toNat && c.toNat != 0x7F)

/-- Any number of blanks. -/
def blanks : Scanner Unit := do
  let _ ← takeWhile isBlank

/-- The end of a line. -/
def lineFeed : Scanner Unit :=
  char '\n' <|> chars ['\r', '\n']

/-- A comment up to the end of its line. -/
def comment : Scanner Unit := do
  char '#'
  let _ ← takeWhile isPlain

/-- The end of a line or of the document. -/
def lineEnd : Scanner Unit :=
  lineFeed <|> atEnd

/-- What may follow on the line after something complete. -/
def trailing : Scanner Unit := do
  blanks
  let _ ← maybe comment
  lineEnd

/-- Blanks, line ends and comments, in any number. -/
def gap : Scanner Unit := do
  let blank : Scanner Unit := do let _ ← satisfy isBlank
  let _ ← many (blank <|> lineFeed <|> do comment; lineFeed)

/-! ### Escapes -/

/-- The value of a hexadecimal digit. -/
def hexValue (c : Char) : Nat :=
  if c.isDigit then c.toNat - '0'.toNat
  else if 'a' ≤ c ∧ c ≤ 'f' then c.toNat - 'a'.toNat + 10
  else c.toNat - 'A'.toNat + 10

/-- The digits of hexadecimal numbers. -/
def isHexDigit (c : Char) : Bool :=
  c.isDigit || ('a' ≤ c && c ≤ 'f') || ('A' ≤ c && c ≤ 'F')

/-- A character given by so many hexadecimal digits; surrogates are no characters. -/
def scalar (digits : Nat) : Scanner Char := do
  let value := (← exactly isHexDigit digits).foldl (fun n d => 16 * n + hexValue d) 0
  if h : value.isValidChar then return Char.ofNatAux value h else failure

/-- The character that an escape stands for, from behind the backslash on. -/
def escaped : Scanner Char := do
  match ← satisfy fun _ => true with
  | 'b' => return '\x08'
  | 't' => return '\t'
  | 'n' => return '\n'
  | 'f' => return '\x0C'
  | 'r' => return '\r'
  | '"' => return '"'
  | '\\' => return '\\'
  | 'u' => scalar 4
  | 'U' => scalar 8
  | _ => failure

/-! ### Strings on one line -/

/-- The characters that stand for themselves in a string with escapes. -/
def isUnescaped (c : Char) : Bool :=
  isPlain c && c != '"' && c != '\\'

/-- The characters of a string without escapes. -/
def isLiteral (c : Char) : Bool :=
  isPlain c && c != '\''

/-- A string with escapes, on one line. -/
def basicString : Scanner (List Char) := do
  char '"'
  let body ← many (satisfy isUnescaped <|> do char '\\'; escaped)
  char '"'
  return body

/-- A string without escapes, on one line. -/
def literalString : Scanner (List Char) := do
  char '\''
  let body ← takeWhile isLiteral
  char '\''
  return body

/-! ### Strings on several lines -/

/-- A line end inside a string, which is a line feed however it is written. -/
def innerLineFeed : Scanner (List Char) := do
  lineFeed
  return ['\n']

/-- A backslash at the end of a line: it and all blanks and line ends behind it are left out. -/
def continuation : Scanner (List Char) := do
  char '\\'
  blanks
  lineFeed
  let blank : Scanner Unit := do let _ ← satisfy isBlank
  let _ ← many (blank <|> lineFeed)
  return []

/-- A piece of a string with escapes on several lines, quotes excepted. -/
def basicPiece : Scanner (List Char) :=
  takeWhile1 isUnescaped <|> continuation <|> innerLineFeed <|> do
    char '\\'
    return [← escaped]

/-- A piece of a string without escapes on several lines, quotes excepted. -/
def literalPiece : Scanner (List Char) :=
  takeWhile1 isLiteral <|> innerLineFeed

/-- One or two quotes inside a string that ends in three. -/
def innerQuotes (quote : Char) : Scanner (List Char) := do
  let quotes ← takeWhile1 (· == quote)
  if quotes.length < 3 then return quotes else failure

/-- The end of a string on several lines: three quotes, and up to two in front of them that still
belong to the string. -/
def closingQuotes (quote : Char) : Scanner (List Char) := fun text => do
  let quotes := (text.takeWhile (· == quote)).length
  if quotes < 3 then none
  else
    let inner := min (quotes - 3) 2
    some (List.replicate inner quote, text.drop (inner + 3))

/-- A string on several lines, made of pieces. A line end right behind the opening quotes does not
belong to it. -/
def multilineString (quote : Char) (piece : Scanner (List Char)) : Scanner (List Char) := do
  chars [quote, quote, quote]
  let _ ← maybe lineFeed
  let pieces ← many (piece <|> innerQuotes quote)
  return pieces.flatten ++ (← closingQuotes quote)

/-- A string of any kind. -/
def anyString : Scanner String := do
  let body ← multilineString '"' basicPiece <|> multilineString '\'' literalPiece <|>
    basicString <|> literalString
  return String.ofList body

/-! ### Keys -/

/-- The characters of keys without quotes. -/
def isBareKey (c : Char) : Bool :=
  c.isAlphanum || c == '_' || c == '-'

/-- A key without dots. -/
def simpleKey : Scanner String :=
  (String.ofList <$> (basicString <|> literalString <|> takeWhile1 isBareKey))

/-- The most parts that a key may have is one less than this, and so is the most levels to which
values may be nested. -/
def nestingLimit : Nat := 80

/-- A key with dots: the names of the tables it leads through, and the last name. -/
def dottedKey : Scanner (List String) := do
  let part : Scanner String := do
    blanks
    let key ← simpleKey
    blanks
    return key
  let keys ← separated part (char '.')
  if keys.length < nestingLimit then return keys else failure

end CodeCensus.Toml
