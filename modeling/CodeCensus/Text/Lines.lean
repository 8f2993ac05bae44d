/-!
# Lines

A text is cut at every line feed. The cut is plain: a text that ends in a line feed has an empty last
line, and the empty text is one empty line, so there is always one line more than there are line
feeds. A carriage return before the line feed stays in its line and is removed with the margins.
-/

namespace CodeCensus.Text

/-- Put one more character in front of a text that has already been cut into lines. -/
def consLine (c : Char) (rest : List (List Char)) : List (List Char) :=
  if c = '\n' then [] :: rest
  else
    match rest with
    | [] => [[c]]
    | line :: more => (c :: line) :: more

/-- The lines of a text. -/
def lines (cs : List Char) : List (List Char) :=
  cs.foldr consLine [[]]

/-- The number of lines of a text. -/
def lineCount (content : String) : Nat :=
  (lines content.toList).length

end CodeCensus.Text
