import CodeCensus.Text.Fold

/-!
# Comment styles

How a language family writes its comments: the markers that begin a comment up to the end of the
line, and the pairs of markers that enclose a comment over any number of lines. Languages that
belong to no listed family are taken to write comments as C does.
-/

namespace CodeCensus.Comment

/-- The comment markers of a language family. -/
structure Style where
  /-- Markers of a comment that runs to the end of its line. -/
  single : List (List Char)
  /-- Opening and closing markers of an enclosed comment, in the order in which they are tried. -/
  block : List (List Char × List Char)
  deriving DecidableEq, Repr

namespace Style

/-! ### The families -/

/-- Two slashes, or slash and star. -/
def cLike : Style :=
  ⟨[['/', '/']], [(['/', '*'], ['*', '/'])]⟩

/-- A number sign, or a text in triple quotes of either kind. -/
def python : Style :=
  ⟨[['#']], [(['"', '"', '"'], ['"', '"', '"']), (['\'', '\'', '\''], ['\'', '\'', '\''])]⟩

/-- A number sign, or the words `=begin` and `=end`. -/
def ruby : Style :=
  ⟨[['#']], [(['=', 'b', 'e', 'g', 'i', 'n'], ['=', 'e', 'n', 'd'])]⟩

/-- The enclosed comments of the markup languages, which have no other kind. -/
def markup : Style :=
  ⟨[], [(['<', '!', '-', '-'], ['-', '-', '>'])]⟩

/-- A number sign only. -/
def shell : Style :=
  ⟨[['#']], []⟩

/-- Two hyphens, or slash and star. -/
def sql : Style :=
  ⟨[['-', '-']], [(['/', '*'], ['*', '/'])]⟩

/-- Two hyphens, or two hyphens with a long bracket. -/
def lua : Style :=
  ⟨[['-', '-']], [(['-', '-', '[', '['], [']', ']'])]⟩

/-! ### Looking a label up -/

/-- The family of each label that does not follow C, under its folded label. -/
def families : List (String × Style) :=
  [("python", python), ("ruby", ruby), ("html", markup), ("xml", markup), ("markdown", markup),
    ("shell", shell), ("bash", shell), ("yaml", shell), ("dockerfile", shell), ("sql", sql),
    ("lua", lua)]

/-- The comment style of a language label, whatever its case. -/
def ofLabel (label : String) : Style :=
  (families.lookup (Text.fold label)).getD cLike

end Style

end CodeCensus.Comment
