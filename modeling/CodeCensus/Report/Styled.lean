/-!
# Styled text

A text for a terminal is a list of pieces: plain text, and changes of style. Each change of style is
written as an escape sequence that the terminal obeys and does not show.
-/

namespace CodeCensus.Report

/-- The changes of style. -/
inductive Style where
  | bold
  | dim
  | red
  | green
  | yellow
  | blue
  | cyan
  | lightRed
  | lightGreen
  /-- Back to unstyled text. -/
  | reset
  deriving DecidableEq, Repr

namespace Style

/-- The number of a style in its escape sequence. -/
def code : Style → List Char
  | bold => ['1']
  | dim => ['2']
  | red => ['3', '1']
  | green => ['3', '2']
  | yellow => ['3', '3']
  | blue => ['3', '4']
  | cyan => ['3', '6']
  | lightRed => ['9', '1']
  | lightGreen => ['9', '2']
  | reset => ['0']

/-- The escape sequence of a style. -/
def sequence (style : Style) : List Char :=
  '\x1b' :: '[' :: style.code ++ ['m']

end Style

/-- A piece of a styled text. -/
inductive Piece where
  | text (chars : List Char)
  | style (style : Style)
  deriving DecidableEq, Repr

/-- A text with changes of style. -/
abbrev Styled := List Piece

namespace Styled

/-- Text in whatever style is in force. -/
def plain (s : String) : Styled :=
  [.text s.toList]

/-- Put some styles in force for a text. -/
def under (styles : List Style) (inner : Styled) : Styled :=
  styles.map .style ++ inner ++ [.style .reset]

/-- A short text in a single style. -/
def paint (style : Style) (s : String) : Styled :=
  under [style] (plain s)

/-- What is sent to a terminal that shows styles. -/
def coloured (styled : Styled) : List Char :=
  styled.flatMap fun
    | .text chars => chars
    | .style style => style.sequence

/-- The text alone. -/
def uncoloured (styled : Styled) : List Char :=
  styled.flatMap fun
    | .text chars => chars
    | .style _ => []

end Styled

end CodeCensus.Report
