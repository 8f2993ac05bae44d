import CodeCensus.Json.Token

/-!
# The grammar of JSON

Which texts are JSON documents, and what they describe.  This is the grammar as it is usually given, by
rules that say how the text of something is made of the texts of its parts; nothing is said about how a
text is read.  Blanks may stand around every value and every key.

One relation `Spells` covers all parts of a document, since values, elements and members are inside each
other.
-/

namespace CodeCensus.Json

/-! ### Numerals -/

/-- Digits, at least one. -/
def IsDigits (cs : List Char) : Prop :=
  cs ≠ [] ∧ ∀ c ∈ cs, c.isDigit

/-- The digits before the point: no zero stands in front of another digit. -/
def IsWhole (cs : List Char) : Prop :=
  IsDigits cs ∧ (cs.head? = some '0' → cs = ['0'])

/-- How the digits behind the point are written. -/
inductive SpellsFraction : List Char → List Char → Prop where
  | none : SpellsFraction [] []
  | some {digits : List Char} (digitsOk : IsDigits digits) : SpellsFraction ('.' :: digits) digits

/-- How an exponent is written. -/
inductive SpellsExponent : List Char → Option (Bool × List Char) → Prop where
  | none : SpellsExponent [] none
  | unsigned {mark : Char} {digits : List Char} (isMark : mark = 'e' ∨ mark = 'E')
      (digitsOk : IsDigits digits) : SpellsExponent (mark :: digits) (some (false, digits))
  | signed {mark : Char} {digits : List Char} (isMark : mark = 'e' ∨ mark = 'E') (negative : Bool)
      (digitsOk : IsDigits digits) :
      SpellsExponent (mark :: (if negative then '-' else '+') :: digits) (some (negative, digits))

/-- How a numeral is written. -/
inductive SpellsNumeral : List Char → Numeral → Prop where
  | numeral (negative : Bool) {whole point fraction power : List Char}
      {exponent : Option (Bool × List Char)} (wholeOk : IsWhole whole)
      (fractionOk : SpellsFraction point fraction) (exponentOk : SpellsExponent power exponent) :
      SpellsNumeral ((if negative then ['-'] else []) ++ whole ++ point ++ power)
        ⟨negative, whole, fraction, exponent⟩

/-! ### Strings -/

/-- How a piece of a string is written.  What is not escaped is neither a quote nor a backslash nor a
control character. -/
inductive SpellsPiece : List Char → Piece → Prop where
  | plain {c : Char} (noQuote : c ≠ '"') (noBackslash : c ≠ '\\') (noControl : 0x20 ≤ c.toNat) :
      SpellsPiece [c] (.char c)
  | letter {letter c : Char} (escapes : unescape? letter = some c) : SpellsPiece ['\\', letter] (.char c)
  | unit {a b c d : Char} {first second third fourth : Nat} (hexFirst : hexValue? a = some first)
      (hexSecond : hexValue? b = some second) (hexThird : hexValue? c = some third)
      (hexFourth : hexValue? d = some fourth) :
      SpellsPiece ['\\', 'u', a, b, c, d]
        (.ofUnit (16 * (16 * (16 * first + second) + third) + fourth))

/-- How the pieces of a string are written. -/
inductive SpellsPieces : List Char → List Piece → Prop where
  | nil : SpellsPieces [] []
  | cons {first rest : List Char} {piece : Piece} {pieces : List Piece}
      (firstOk : SpellsPiece first piece) (restOk : SpellsPieces rest pieces) :
      SpellsPieces (first ++ rest) (piece :: pieces)

/-- How a string is written. -/
inductive SpellsString : List Char → Option String → Prop where
  | quoted {inside : List Char} {pieces : List Piece} (insideOk : SpellsPieces inside pieces) :
      SpellsString ('"' :: inside ++ ['"']) ((textOfPieces? pieces).map String.ofList)

/-! ### Values -/

/-- Blanks, or nothing. -/
def IsBlanks (cs : List Char) : Prop :=
  ∀ c ∈ cs, Lexer.isBlank c

/-- The parts of a document that have a text. -/
inductive Part where
  | value (value : Value)
  /-- A value with blanks around it. -/
  | element (value : Value)
  /-- The values of an array that is not empty, with commas between them. -/
  | elements (values : List Value)
  /-- A key and its value, with a colon between them. -/
  | member (key : Option String) (value : Value)
  /-- The members of an object that is not empty, with commas between them. -/
  | members (members : List (Option String × Value))

/-- How a part of a document is written. -/
inductive Spells : Part → List Char → Prop where
  | null : Spells (.value .null) ['n', 'u', 'l', 'l']
  | true : Spells (.value (.bool true)) ['t', 'r', 'u', 'e']
  | false : Spells (.value (.bool false)) ['f', 'a', 'l', 's', 'e']
  | number {text : List Char} {numeral : Numeral} (spells : SpellsNumeral text numeral) :
      Spells (.value (.number numeral)) text
  | string {text : List Char} {content : Option String} (spells : SpellsString text content) :
      Spells (.value (.string content)) text
  | emptyArray {blanks : List Char} (isBlanks : IsBlanks blanks) :
      Spells (.value (.array [])) ('[' :: blanks ++ [']'])
  | array {values : List Value} {inside : List Char} (elements : Spells (.elements values) inside) :
      Spells (.value (.array values)) ('[' :: inside ++ [']'])
  | emptyObject {blanks : List Char} (isBlanks : IsBlanks blanks) :
      Spells (.value (.object [])) ('{' :: blanks ++ ['}'])
  | object {members : List (Option String × Value)} {inside : List Char}
      (membersOk : Spells (.members members) inside) :
      Spells (.value (.object members)) ('{' :: inside ++ ['}'])
  | element {value : Value} {before text after : List Char} (blanksBefore : IsBlanks before)
      (blanksAfter : IsBlanks after) (spells : Spells (.value value) text) :
      Spells (.element value) (before ++ text ++ after)
  | lastElement {value : Value} {text : List Char} (spells : Spells (.element value) text) :
      Spells (.elements [value]) text
  | furtherElement {value : Value} {values : List Value} {text rest : List Char}
      (spells : Spells (.element value) text) (restOk : Spells (.elements values) rest) :
      Spells (.elements (value :: values)) (text ++ ',' :: rest)
  | member {key : Option String} {value : Value} {before keyText after text : List Char}
      (blanksBefore : IsBlanks before) (blanksAfter : IsBlanks after)
      (keyOk : SpellsString keyText key) (spells : Spells (.element value) text) :
      Spells (.member key value) (before ++ keyText ++ after ++ ':' :: text)
  | lastMember {key : Option String} {value : Value} {text : List Char}
      (spells : Spells (.member key value) text) : Spells (.members [(key, value)]) text
  | furtherMember {key : Option String} {value : Value} {members : List (Option String × Value)}
      {text rest : List Char} (spells : Spells (.member key value) text)
      (restOk : Spells (.members members) rest) :
      Spells (.members ((key, value) :: members)) (text ++ ',' :: rest)

/-- A text is a document that describes a value. -/
def IsDocument (text : List Char) (value : Value) : Prop :=
  Spells (.element value) text

end CodeCensus.Json
