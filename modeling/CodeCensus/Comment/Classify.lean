import CodeCensus.Comment.Style
import CodeCensus.Text.Blank
import CodeCensus.Text.Lines
import CodeCensus.Text.Search

/-!
# Code, comment or blank

Every line of a file is code, comment or blank, judged from the comment markers of its language
alone. This is a count and not a lexer: a marker inside a string literal counts as a marker, and
whether an enclosed comment stays open at the end of its first line is read off the first places of
the two markers on that line.

The lines are read from top to bottom. What is carried from one line to the next is the closing
marker of the comment that is open, if one is.
-/

namespace CodeCensus.Comment

/-! ### One line -/

/-- What a line counts as. -/
inductive LineKind where
  | code
  | comment
  | blank
  deriving DecidableEq, Repr

/-- The open comment at the start of a line: its closing marker, or nothing. -/
abbrev Span := Option (List Char)

/-- Whether a line that contains the opening marker leaves the comment open: the closing marker does
not occur, or its first place is before the first place of the opening marker. Where the two markers
share characters the first closing marker can be the opening marker itself, and then the comment is
closed on its line. -/
def staysOpen (openMark closeMark line : List Char) : Bool :=
  match Text.firstAt? closeMark line, Text.firstAt? openMark line with
  | none, _ => true
  | some closeAt, some openAt => closeAt < openAt
  | some _, none => false

/-- The kind of a line without its margins, and the comment that is open after it. -/
def stepLine (style : Style) (span : Span) (line : List Char) : LineKind × Span :=
  if line.isEmpty then (.blank, span)
  else
    match span with
    | some closeMark => (.comment, if Text.occursIn closeMark line then none else span)
    | none =>
      if style.single.any (·.isPrefixOf line) then (.comment, none)
      else
        match style.block.find? (fun pair => Text.occursIn pair.1 line) with
        | some (openMark, closeMark) =>
          (.comment, if staysOpen openMark closeMark line then some closeMark else none)
        | none => (.code, none)

/-! ### Counting -/

/-- How many lines are code, comment and blank, and how many there are. -/
structure LineCounts where
  code : Nat := 0
  comments : Nat := 0
  blank : Nat := 0
  total : Nat := 0
  deriving DecidableEq, Repr

namespace LineCounts

/-- Count one more line. -/
def tally (counts : LineCounts) : LineKind → LineCounts
  | .code => { counts with code := counts.code + 1, total := counts.total + 1 }
  | .comment => { counts with comments := counts.comments + 1, total := counts.total + 1 }
  | .blank => { counts with blank := counts.blank + 1, total := counts.total + 1 }

/-- The componentwise sum. -/
def add (a b : LineCounts) : LineCounts :=
  ⟨a.code + b.code, a.comments + b.comments, a.blank + b.blank, a.total + b.total⟩

instance : Add LineCounts := ⟨add⟩

end LineCounts

/-- The state of a reading: the open comment and the counts so far. -/
structure Reading where
  span : Span := none
  counts : LineCounts := {}

/-- Read one more line. -/
def Reading.next (style : Style) (reading : Reading) (line : List Char) : Reading :=
  let (kind, span) := stepLine style reading.span (Text.trimLine line)
  ⟨span, reading.counts.tally kind⟩

/-- Read a text to its end, from outside any comment. -/
def read (style : Style) (text : List Char) : Reading :=
  (Text.lines text).foldl (Reading.next style) {}

/-- The line counts of a file with the given language label. -/
def classify (content label : String) : LineCounts :=
  (read (Style.ofLabel label) content.toList).counts

end CodeCensus.Comment
