/-!
# Case folding against plain keywords

Labels, extensions and format names are compared without regard to case, always with a keyword in
plain ASCII letters. Under the Unicode case mappings exactly one character outside ASCII becomes an
ASCII letter when it is lowered, the Kelvin sign U+212A, which becomes `k`. Any other character
outside ASCII stays outside ASCII and so can match no keyword. Folding ASCII letters and the Kelvin
sign is therefore enough, and needs no table.
-/

namespace CodeCensus.Text

/-- The lower-case letter for an ASCII capital or the Kelvin sign; any other character is kept. -/
def foldChar (c : Char) : Char :=
  if c == '\u212A' then 'k' else c.toLower

/-- Fold every character of a text. -/
def fold (s : String) : String :=
  String.ofList (s.toList.map foldChar)

end CodeCensus.Text
