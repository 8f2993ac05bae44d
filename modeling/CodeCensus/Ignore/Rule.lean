import CodeCensus.Glob.Pattern
import CodeCensus.Path
import CodeCensus.Text.Blank

/-!
# Rules

A rule says of the entries that its glob accepts whether they are passed over or kept. A line of an
ignore file is a rule, unless it is blank or a comment.

Rules may also be given from outside. They are written in the same way and mean the opposite: a plain
pattern is about what to keep, and one behind an exclamation mark about what to pass over.

A rule is about paths below the directory that it belongs to. If its pattern has no slash, or only one at
the end, it is about names at every depth; otherwise about paths from that directory on. A pattern that
ends in a slash is about directories only.
-/

namespace CodeCensus.Ignore

/-- A rule about the entries below a directory. -/
structure Rule where
  pattern : Glob.Pattern
  /-- Whether entries that fit are kept instead of passed over. -/
  keeps : Bool
  onlyDirectories : Bool
  deriving DecidableEq, Repr

/-- The bytes of a path that is given by its names. -/
def pathBytes (names : List FileName) : List UInt8 :=
  List.intercalate [Path.slash] names

/-- Whether a rule is about an entry. -/
def Rule.fits (rule : Rule) (names : List FileName) (isDirectory : Bool) : Bool :=
  (!rule.onlyDirectories || isDirectory) && rule.pattern.glob.accepts (pathBytes names)

/-! ### Reading a rule -/

/-- A text without one backslash at its end. -/
def withoutBackslash (text : List Char) : List Char :=
  if text.getLast? = some '\\' then text.dropLast else text

/-- The pattern for all paths, where the pattern of a rule has no slash. -/
def atEveryDepth (text : List Char) : List Char :=
  if text = ['*', '*'] then text else '*' :: '*' :: '/' :: text

/-- The pattern for what is inside a directory, where the pattern would fit the directory too. -/
def onlyInside (text : List Char) : List Char :=
  if ['/', '*', '*'].isSuffixOf text then text ++ ['/', '*'] else text

/-- The rule with the given text of a pattern. -/
def Rule.ofPattern (brackets : Glob.Brackets) (keeps : Bool) (written : List Char) :
    Except Glob.Error Rule := do
  let anchored := written.head? = some '/'
  let text := if anchored then written.tail else written
  let onlyDirectories := text.getLast? = some '/'
  let text := if onlyDirectories then withoutBackslash text.dropLast else text
  let text := if anchored ∨ '/' ∈ text then text else atEveryDepth text
  pure ⟨← Glob.Pattern.parse brackets (onlyInside text), keeps, onlyDirectories⟩

/-- A line without the blanks at its end, unless the last of them is escaped. -/
def trimEnd (line : List Char) : List Char :=
  if ['\\', ' '].isSuffixOf line then line else Text.stripEnd Text.isBlank line

/-- The rule in a line. A comment and a blank line hold none. -/
def Rule.ofLine (brackets : Glob.Brackets) (line : List Char) : Except Glob.Error (Option Rule) :=
  match trimEnd line with
  | [] => pure none
  | '#' :: _ => pure none
  | '\\' :: '!' :: rest => some <$> ofPattern brackets false ('!' :: rest)
  | '\\' :: '#' :: rest => some <$> ofPattern brackets false ('#' :: rest)
  | '!' :: rest => some <$> ofPattern brackets true rest
  | text => some <$> ofPattern brackets false text

/-! ### Lists of rules -/

/-- What rules say about an entry. -/
inductive Verdict where
  /-- Pass it over. -/
  | skip
  /-- Keep it. -/
  | keep
  deriving DecidableEq, Repr

/-- What the last rule that is about an entry says of it. -/
def verdict? (rules : List Rule) (names : List FileName) (isDirectory : Bool) : Option Verdict :=
  (rules.reverse.find? fun rule => rule.fits names isDirectory).map fun rule =>
    if rule.keeps then .keep else .skip

/-- What rules from outside say about an entry. Where there is a rule about what to keep, files that no
rule is about are passed over. -/
def overrideAt? (rules : List Rule) (names : List FileName) (isDirectory : Bool) : Option Verdict :=
  match verdict? rules names isDirectory with
  | some .skip => some .keep
  | some .keep => some .skip
  | none => if (rules.any fun rule => !rule.keeps) && !isDirectory then some .skip else none

/-- A line without a carriage return at its end. -/
def lineText (line : List UInt8) : List UInt8 :=
  if line.getLast? = some 0x0D then line.dropLast else line

/-- The lines of a file. A carriage return belongs to the end of a line, but only in front of a line
feed. -/
def linesOf (bytes : List UInt8) : List (List UInt8) :=
  let lines := bytes.splitOn 0x0A
  lines.dropLast.map lineText ++ lines.getLast?.toList.filter (· ≠ [])

/-- The texts of some lines up to the first one that is not valid UTF-8. -/
def textsOf : List (List UInt8) → List (List Char)
  | [] => []
  | line :: lines =>
    match Text.ofBytes? line with
    | some text => text.toList :: textsOf lines
    | none => []

/-- The rules in the lines of an ignore file. A byte-order mark in front of the first line does not
belong to it, and a line that is no pattern holds no rule. -/
def rulesOfLines : List (List Char) → List Rule
  | [] => []
  | first :: lines =>
    (first.dropWhile (· == '\uFEFF') :: lines).filterMap fun line =>
      (Rule.ofLine .lenient line).toOption.join

/-- Whether some rules can be applied: all of them at once, so none of their patterns may be too deep. -/
def applicable (rules : List Rule) : Bool :=
  rules.all fun rule => !rule.pattern.tooDeep

/-- The rules in an ignore file; none if they cannot be applied. -/
def rulesOfFile (body : ByteArray) : List Rule :=
  let rules := rulesOfLines (textsOf (linesOf body.toList))
  if applicable rules then rules else []

end CodeCensus.Ignore
