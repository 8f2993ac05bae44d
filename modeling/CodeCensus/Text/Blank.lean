/-!
# Blank characters and margins

A line of source text is looked at without its margins: the blank characters at both ends, and the
byte-order mark U+FEFF, which some editors put in front of a file. The blanks are the 25 characters
with the Unicode property `White_Space`; the byte-order mark is not one of them, so the two sets are
kept apart.
-/

namespace CodeCensus.Text

/-! ### The two character classes -/

/-- The characters with the Unicode property `White_Space`. -/
def isBlank (c : Char) : Bool :=
  let n := c.toNat
  (0x09 ≤ n && n ≤ 0x0D) || n == 0x20 || n == 0x85 || n == 0xA0 || n == 0x1680 ||
    (0x2000 ≤ n && n ≤ 0x200A) || n == 0x2028 || n == 0x2029 || n == 0x202F || n == 0x205F ||
    n == 0x3000

/-- A margin character is a blank or a byte-order mark. -/
def isMargin (c : Char) : Bool :=
  isBlank c || c == '\uFEFF'

/-! ### Stripping both ends -/

/-- Drop the characters satisfying `p` from the end of a text. -/
def stripEnd (p : Char → Bool) (cs : List Char) : List Char :=
  (cs.reverse.dropWhile p).reverse

/-- Drop the characters satisfying `p` from both ends of a text. -/
def strip (p : Char → Bool) (cs : List Char) : List Char :=
  stripEnd p (cs.dropWhile p)

/-- A text without the blanks around it. -/
def trim (cs : List Char) : List Char :=
  strip isBlank cs

/-- A line without its margins. -/
def trimLine (line : List Char) : List Char :=
  strip isMargin line

end CodeCensus.Text
