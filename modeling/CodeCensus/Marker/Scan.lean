import CodeCensus.Marker.Kind
import CodeCensus.Text.Blank
import CodeCensus.Text.Fold
import CodeCensus.Text.Lines
import CodeCensus.Text.Search

/-!
# Finding markers

A marker is a comment opener, any number of blanks, a keyword in any case, then a colon or a blank,
and at least one more character. A line has at most one marker: its kind is the first kind, in the
order of `Kind`, that occurs anywhere on the line, and its text is taken from the leftmost
occurrence of that kind.
-/

namespace CodeCensus.Marker

/-! ### One occurrence -/

/-- The texts that open a comment, as far as markers are concerned. -/
def openers : List (List Char) :=
  [['/', '/'], ['#'], ['/', '*'], ['<', '!', '-', '-']]

/-- Whether a character may stand between the keyword and the text of a marker. -/
def isSeparator (c : Char) : Bool :=
  c == ':' || Text.isBlank c

/-- What follows the separator of a marker that begins exactly here; it is never empty. No two
openers can stand at one place, so at most one of them leads anywhere. -/
def bodyHere? (kind : Kind) (text : List Char) : Option (List Char) :=
  openers.findSome? fun opener => do
    let afterOpener ← Text.after? (· == ·) opener text
    let afterKeyword ←
      Text.after? (fun k c => k == Text.foldChar c) kind.keyword (afterOpener.dropWhile Text.isBlank)
    match afterKeyword with
    | separator :: body =>
      if isSeparator separator && !body.isEmpty then some body else none
    | [] => none

/-- What follows the separator of the leftmost marker of a kind. -/
def body? (kind : Kind) : List Char → Option (List Char)
  | [] => none
  | c :: cs => bodyHere? kind (c :: cs) <|> body? kind cs

/-! ### The text of a marker -/

/-- Take one closing comment marker off the end, as long as something is left in front of it. -/
def dropCloser (body : List Char) : List Char :=
  let front (closer : List Char) : Option (List Char) :=
    if closer.isSuffixOf body && closer.length < body.length then
      some (body.take (body.length - closer.length))
    else none
  (front ['*', '/'] <|> front ['-', '-', '>']).getD body

/-- The text of a marker: its body without a closing comment marker and without margins, or the
whole line where that leaves nothing. -/
def textOf (line body : List Char) : List Char :=
  let text := Text.trimLine (dropCloser body)
  if text.isEmpty then Text.trimLine line else text

/-- The marker of a line, if it has one: its kind and its text. -/
def scanLine (line : List Char) : Option (Kind × List Char) :=
  Kind.all.findSome? fun kind => (body? kind line).map fun body => (kind, textOf line body)

/-! ### Whole contents -/

/-- A marker of a file. Lines are numbered from one. -/
structure Hit where
  kind : Kind
  text : String
  line : Nat
  deriving DecidableEq, Repr

/-- The markers of a file, from top to bottom. -/
def scan (content : String) : List Hit :=
  ((Text.lines content.toList).zipIdx 1).filterMap fun (line, number) =>
    (scanLine line).map fun (kind, text) => ⟨kind, String.ofList text, number⟩

end CodeCensus.Marker
