import CodeCensus.Census.SourceFile
import CodeCensus.Comment.Classify
import CodeCensus.Ranking

/-!
# Lines per language

The line counts of all readable files, added up per language label and over all languages. Labels
are compared exactly.
-/

namespace CodeCensus.Census

open Comment (LineCounts)

/-! ### One language -/

/-- The lines of all files of one language. -/
structure LanguageStats where
  label : String
  files : Nat := 0
  code : Nat := 0
  comments : Nat := 0
  blank : Nat := 0
  total : Nat := 0
  deriving DecidableEq, Repr

namespace LanguageStats

/-- The lines of the first file of a language. -/
def ofFile (label : String) (counts : LineCounts) : LanguageStats :=
  ⟨label, 1, counts.code, counts.comments, counts.blank, counts.total⟩

/-- Add the lines of one more file. -/
def addFile (stats : LanguageStats) (counts : LineCounts) : LanguageStats :=
  { stats with
    files := stats.files + 1
    code := stats.code + counts.code
    comments := stats.comments + counts.comments
    blank := stats.blank + counts.blank
    total := stats.total + counts.total }

end LanguageStats

/-- Count a file under its label, among the languages seen so far. -/
def tallyLanguage (languages : List LanguageStats) (label : String) (counts : LineCounts) :
    List LanguageStats :=
  Ranking.upsert LanguageStats.label label (.ofFile label counts) (·.addFile counts) languages

/-! ### All languages -/

/-- The lines of all files of all languages. -/
structure LineTotals where
  files : Nat := 0
  code : Nat := 0
  comments : Nat := 0
  blank : Nat := 0
  total : Nat := 0
  deriving DecidableEq, Repr

namespace LineTotals

/-- Add the lines of one language. -/
def addLanguage (totals : LineTotals) (stats : LanguageStats) : LineTotals :=
  ⟨totals.files + stats.files, totals.code + stats.code, totals.comments + stats.comments,
    totals.blank + stats.blank, totals.total + stats.total⟩

/-- The sum over a list of languages. -/
def ofLanguages (languages : List LanguageStats) : LineTotals :=
  languages.foldl addLanguage {}

/-- Comment lines per line of code. At least one line of code is assumed, so that there is a ratio
even where there is no code. -/
def commentRatio (totals : LineTotals) : Float :=
  totals.comments.toUInt64.toFloat / (max totals.code.toUInt64 1).toFloat

end LineTotals

/-- The table of languages, those with more code first. -/
structure LanguageTable where
  languages : List LanguageStats := []
  totals : LineTotals := {}
  deriving DecidableEq, Repr

namespace LanguageTable

/-- Whether a language is in the table. -/
def has (table : LanguageTable) (label : String) : Bool :=
  table.languages.any (·.label == label)

/-- The languages of some texts, in the order in which they are first seen. -/
def collect (texts : List (SourceFile × String)) : List LanguageStats :=
  texts.foldl
    (fun languages (file, text) =>
      tallyLanguage languages file.label (Comment.classify text file.label)) []

/-- The table for what was found in some files. -/
def ofAnswers (answers : Answers) : LanguageTable :=
  let languages := Ranking.descending LanguageStats.code (collect answers.texts)
  ⟨languages, .ofLanguages languages⟩

/-- The table for a list of files. -/
def ofFiles (contents : Contents) (files : List SourceFile) : LanguageTable :=
  ofAnswers (answers contents files)

end LanguageTable

end CodeCensus.Census
