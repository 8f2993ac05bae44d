import CodeCensus.Json.Value

/-!
# JSON tokens

A JSON text is read in two passes, each from left to right with a state that is carried along. The
first pass, here, cuts the text into tokens: it remembers the token that is being read, and hands it
over as soon as a character comes that does not belong to it.
-/

namespace CodeCensus.Json

/-! ### Tokens -/

/-- The smallest parts of a JSON text that mean something. -/
inductive Token where
  | openSquare
  | closeSquare
  | openCurly
  | closeCurly
  | comma
  | colon
  | null
  | bool (value : Bool)
  | number (numeral : Numeral)
  | string (text : Option String)
  deriving DecidableEq, Repr

/-! ### Strings -/

/-- A part of a string: a character, or half of a surrogate pair. -/
inductive Piece where
  | char (c : Char)
  | half (unit : Nat)
  deriving DecidableEq, Repr

/-- The piece that a sixteen-bit unit stands for. -/
def Piece.ofUnit (unit : Nat) : Piece :=
  if 0xD800 ≤ unit ∧ unit < 0xE000 then .half unit else .char (Char.ofNat unit)

/-- The text of a string whose pieces come in order: every first half must be followed by a second
one, with which it makes a character. -/
def textOfPieces? : List Piece → Option (List Char)
  | [] => some []
  | .char c :: rest => (textOfPieces? rest).map (c :: ·)
  | .half high :: .half low :: rest =>
    if high < 0xDC00 ∧ 0xDC00 ≤ low then
      let c := Char.ofNat (0x10000 + (high - 0xD800) * 0x400 + (low - 0xDC00))
      (textOfPieces? rest).map (c :: ·)
    else none
  | .half _ :: _ => none

/-- The character that a one-letter escape stands for. -/
def unescape? : Char → Option Char
  | '"' => some '"'
  | '\\' => some '\\'
  | '/' => some '/'
  | 'b' => some '\x08'
  | 'f' => some '\x0C'
  | 'n' => some '\n'
  | 'r' => some '\r'
  | 't' => some '\t'
  | _ => none

/-- The value of a hexadecimal digit. -/
def hexValue? (c : Char) : Option Nat :=
  if '0' ≤ c ∧ c ≤ '9' then some (c.toNat - '0'.toNat)
  else if 'a' ≤ c ∧ c ≤ 'f' then some (c.toNat - 'a'.toNat + 10)
  else if 'A' ≤ c ∧ c ≤ 'F' then some (c.toNat - 'A'.toNat + 10)
  else none

/-! ### Reading -/

/-- The token that is being read; what has been read of it comes last character first. -/
inductive Mode where
  | between
  | word (letters : List Char)
  | numeral (chars : List Char)
  | string (pieces : List Piece)
  | escape (pieces : List Piece)
  | hex (pieces : List Piece) (left : Nat) (value : Nat)
  deriving DecidableEq, Repr

/-- The tokens read so far, last one first, and the token that is being read. -/
structure Lexer where
  tokens : List Token := []
  mode : Mode := .between
  deriving DecidableEq, Repr

namespace Lexer

/-- The blanks of JSON. -/
def isBlank (c : Char) : Bool :=
  c == ' ' || c == '\n' || c == '\r' || c == '\t'

/-- The characters of which numerals are made. -/
def isNumeralChar (c : Char) : Bool :=
  c.isDigit || c == '-' || c == '+' || c == '.' || c == 'e' || c == 'E'

/-- The token that a single character is. -/
def punctuation? : Char → Option Token
  | '[' => some .openSquare
  | ']' => some .closeSquare
  | '{' => some .openCurly
  | '}' => some .closeCurly
  | ',' => some .comma
  | ':' => some .colon
  | _ => none

/-- The token that a word is. -/
def keyword? (letters : List Char) : Option Token :=
  if letters = ['n', 'u', 'l', 'l'] then some .null
  else if letters = ['t', 'r', 'u', 'e'] then some (.bool true)
  else if letters = ['f', 'a', 'l', 's', 'e'] then some (.bool false)
  else none

/-- Read a character with which a token may begin. -/
def start? (tokens : List Token) (c : Char) : Option Lexer :=
  if isBlank c then some ⟨tokens, .between⟩
  else if c == '"' then some ⟨tokens, .string []⟩
  else if c == '-' || c.isDigit then some ⟨tokens, .numeral [c]⟩
  else if c.isLower then some ⟨tokens, .word [c]⟩
  else (punctuation? c).map fun token => ⟨token :: tokens, .between⟩

/-- The tokens after the end of a word or a numeral. -/
def close? (tokens : List Token) : Mode → Option (List Token)
  | .between => some tokens
  | .word letters => (keyword? letters.reverse).map (· :: tokens)
  | .numeral chars => (Numeral.parse? chars.reverse).map (.number · :: tokens)
  | _ => none

/-- Read the next character. -/
def next? (lexer : Lexer) (c : Char) : Option Lexer :=
  match lexer.mode with
  | .between => start? lexer.tokens c
  | .word letters =>
    if c.isLower then some ⟨lexer.tokens, .word (c :: letters)⟩
    else (close? lexer.tokens (.word letters)).bind (start? · c)
  | .numeral chars =>
    if isNumeralChar c then some ⟨lexer.tokens, .numeral (c :: chars)⟩
    else (close? lexer.tokens (.numeral chars)).bind (start? · c)
  | .string pieces =>
    if c == '"' then
      let text := (textOfPieces? pieces.reverse).map String.ofList
      some ⟨.string text :: lexer.tokens, .between⟩
    else if c == '\\' then some ⟨lexer.tokens, .escape pieces⟩
    else if c.toNat < 0x20 then none
    else some ⟨lexer.tokens, .string (.char c :: pieces)⟩
  | .escape pieces =>
    if c == 'u' then some ⟨lexer.tokens, .hex pieces 4 0⟩
    else (unescape? c).map fun plain => ⟨lexer.tokens, .string (.char plain :: pieces)⟩
  | .hex pieces left value =>
    (hexValue? c).map fun digit =>
      let value := 16 * value + digit
      if left ≤ 1 then ⟨lexer.tokens, .string (.ofUnit value :: pieces)⟩
      else ⟨lexer.tokens, .hex pieces (left - 1) value⟩

end Lexer

/-- The tokens of a text, if it can be cut into tokens. -/
def tokens? (text : List Char) : Option (List Token) :=
  (text.foldlM Lexer.next? {}).bind fun lexer =>
    (Lexer.close? lexer.tokens lexer.mode).map List.reverse

end CodeCensus.Json
