import CodeCensus.Number.ByteSize
import CodeCensus.Number.Grouped
import CodeCensus.Report.Census
import CodeCensus.Report.Escapes
import CodeCensus.Report.Styled

/-!
# The report as text

The report for people: an overview, then one section each for languages, files, markers, history,
dependencies and health. Long lists are cut, long texts are shortened.
-/

namespace CodeCensus.Report

open Styled (plain paint under)

/-! ### Parts of a line -/

/-- Put blanks behind a text up to the given width. -/
def padRight (width : Nat) (s : String) : String :=
  s ++ String.ofList (List.replicate (width - s.length) ' ')

/-- Put blanks in front of a text up to the given width. -/
def padLeft (width : Nat) (s : String) : String :=
  String.ofList (List.replicate (width - s.length) ' ') ++ s

/-- Shorten a text to the given length; three points stand for what is left out. -/
def shorten (length : Nat) (s : String) : String :=
  if s.length ≤ length then s
  else String.ofList (s.toList.take (length - 3)) ++ "..."

/-- A horizontal rule. -/
def rule (length : Nat) : String :=
  String.ofList (List.replicate length '─')

/-- The cells of a row of the table of languages after the first one. -/
def cells (files code comments blank total : String) : List String :=
  [padLeft 8 files, padLeft 10 code, padLeft 10 comments, padLeft 10 blank, padLeft 10 total]

/-- The number in front of an entry of a list, counted from one. -/
def ordinal (index : Nat) : Styled :=
  paint .dim (padLeft 2 (toString (index + 1)) ++ ".")

open Number (grouped byteSize)

/-! ### Sections -/

/-- The heading of the report. -/
def headingSection (r : Report) : Styled :=
  plain "\n" ++ under [.bold, .cyan] (plain ("Codebase Statistics: " ++ r.projectName)) ++
    plain "\n" ++ paint .dim (rule 50) ++ plain "\n\n"

/-- The numbers that sum up a project. -/
def overviewSection (r : Report) : Styled :=
  paint .bold "OVERVIEW" ++
    plain ("\n  Total Files:  " ++ grouped r.files.totalFiles ++
      "\n  Total Lines:  " ++ grouped r.languages.totals.total ++
      "\n  Total Size:   " ++ byteSize r.files.totalSize ++
      "\n  Languages:    " ++ toString r.languages.languages.length ++ "\n\n")

/-- The row of a language. -/
def languageRow (s : Census.LanguageStats) : Styled :=
  plain "  " ++ paint .yellow (padRight 20 (shorten 20 s.label)) ++
    plain (" " ++ padLeft 8 (grouped s.files) ++ " ") ++
    paint .green (padLeft 10 (grouped s.code)) ++ plain " " ++
    paint .blue (padLeft 10 (grouped s.comments)) ++ plain " " ++
    paint .dim (padLeft 10 (grouped s.blank)) ++
    plain (" " ++ padLeft 10 (grouped s.total) ++ "\n")

/-- The most languages that are shown. -/
def maxLanguages : Nat := 15

/-- The table of languages. -/
def languagesSection (r : Report) : Styled :=
  let totals := r.languages.totals
  paint .bold "LINES OF CODE" ++ plain "\n" ++
    paint .dim ("  " ++ " ".intercalate
      (padRight 20 "LANGUAGE" :: cells "FILES" "CODE" "COMMENTS" "BLANK" "TOTAL")) ++
    plain "\n" ++ paint .dim ("  " ++ rule 73) ++ plain "\n" ++
    (r.languages.languages.take maxLanguages).flatMap languageRow ++
    plain "  " ++
    paint .bold (" ".intercalate
      (padRight 20 "Total" ::
        cells (grouped totals.files) (grouped totals.code) (grouped totals.comments)
          (grouped totals.blank) (grouped totals.total))) ++
    plain "\n\n"

/-- A numbered entry: a name, and numbers about it. -/
def numberedRow (index : Nat) (name about : String) : Styled :=
  plain "  " ++ ordinal index ++ plain " " ++ paint .yellow name ++ plain " " ++
    paint .cyan ("(" ++ about ++ ")") ++ plain "\n"

/-- The largest files. -/
def largestSection (r : Report) : Styled :=
  if r.files.largest.isEmpty then []
  else
    paint .bold "LARGEST FILES" ++ plain "\n" ++
      r.files.largest.zipIdx.flatMap (fun (file, i) =>
        numberedRow i file.path (grouped file.lines ++ " lines, " ++ byteSize file.size)) ++
      plain "\n"

/-- The most folders that are shown. -/
def maxFolders : Nat := 5

/-- The fullest folders. -/
def foldersSection (r : Report) : Styled :=
  if r.files.folders.isEmpty then []
  else
    paint .bold "TOP FOLDERS BY FILE COUNT" ++ plain "\n" ++
      (r.files.folders.take maxFolders).zipIdx.flatMap (fun (folder, i) =>
        numberedRow i folder.displayPath
          (toString folder.fileCount ++ " files, " ++ grouped folder.totalLines ++ " lines")) ++
      plain "\n"

/-- The most entries that are shown of any other list. -/
def maxEntries : Nat := 5

/-- Put a separator between styled texts. -/
def joined (separator : String) : List Styled → Styled
  | [] => []
  | [last] => last
  | first :: rest => first ++ plain separator ++ joined separator rest

/-- The markers: how many there are of each kind, the first ones, and the files with most. -/
def markersSection (r : Report) : Styled :=
  let markers := r.markers
  paint .bold "TODOS" ++ plain (" (" ++ toString markers.total ++ " total)\n") ++
    if markers.total = 0 then
      plain "  " ++ paint .dim "No TODO markers found" ++ plain "\n\n"
    else
      plain "  " ++
        joined " | " (markers.byKind.map fun (kind, count) =>
          paint (if kind.isCritical then .red else .yellow) (toString count ++ " " ++ kind.name)) ++
        plain "\n" ++
        (markers.items.take maxEntries).flatMap (fun item =>
          plain "  " ++ paint .dim (item.file ++ ":" ++ toString item.line) ++
            plain (" " ++ item.kind.name ++ ": " ++ shorten 60 item.text ++ "\n")) ++
        (if markers.byFile.isEmpty then []
          else
            plain "  " ++ paint .dim "Most markers:" ++ plain "\n" ++
              (markers.byFile.take maxEntries).flatMap (fun entry =>
                plain "    " ++ paint .yellow entry.file ++
                  plain (" (" ++ toString entry.count ++ ")\n"))) ++
        plain "\n"

/-- The row of a contributor. -/
def contributorRow (c : History.Contributor) : Styled :=
  plain "    " ++ paint .yellow c.name ++ plain " " ++ paint .dim ("<" ++ c.email ++ ">") ++
    plain (" (" ++ toString c.commits ++ ")\n")

/-- The row of a changed file. -/
def churnRow (c : History.FileChurn) : Styled :=
  plain "    " ++ paint .yellow c.file ++ plain (" (" ++ toString c.changes ++ " changes)\n")

/-- The time span of a history, if it has one. -/
def spanRow (h : History.Summary) : Styled :=
  match h.firstCommit, h.lastCommit with
  | some first, some last => plain ("  History: " ++ first ++ " .. " ++ last ++ "\n")
  | _, _ => []

/-- The history: how long, by whom, and what changes most. -/
def historySection (r : Report) : Styled :=
  let h := r.history
  paint .bold "GIT" ++ plain "\n" ++
    if h.isRepository then
      plain ("  Commits: " ++ grouped h.totalCommits ++
          "  Contributors: " ++ toString h.contributors.length ++
          "  Branches: " ++ toString h.branches ++ "\n") ++
        spanRow h ++
        plain ("  Last " ++ toString History.windowDays ++ " days: " ++
          toString h.recentCommits ++ " commits\n") ++
        (h.contributors.take maxEntries).flatMap contributorRow ++
        (if h.fileChurn.isEmpty then []
          else
            plain "  " ++ paint .dim "Most changed:" ++ plain "\n" ++
              (h.fileChurn.take maxEntries).flatMap churnRow) ++
        plain "\n"
    else plain "  " ++ paint .dim "Not a git repository" ++ plain "\n\n"

/-- The dependencies, if there are any. -/
def dependenciesSection (r : Report) : Styled :=
  let d := r.dependencies
  if d.total = 0 then []
  else
    paint .bold "DEPENDENCIES" ++
      plain (" (" ++ d.manager.name ++ ")\n  Total: " ++ toString d.total ++
        "  Prod: " ++ toString d.counts.prod ++ "  Dev: " ++ toString d.counts.dev ++
        "  Peer: " ++ toString d.counts.peer ++ "  Optional: " ++ toString d.counts.optional ++
        "  Build: " ++ toString d.counts.build ++ "\n  Lockfile: ") ++
      (if d.hasLockfile then paint .green "yes" else paint .red "no") ++
      plain ("  Outdated: " ++ toString d.outdated ++ "\n\n")

/-- The colour of a grade. -/
def gradeStyle : Health.Grade → Style
  | .a => .green
  | .b => .lightGreen
  | .c => .yellow
  | .d => .lightRed
  | .f => .red

/-- The points of a category. -/
def categoryPoints (points : Nat) : Styled :=
  paint (if 20 ≤ points then .green else if 15 ≤ points then .yellow else .red)
    (toString points ++ "/25")

/-- A list of remarks under a title, if there are any. -/
def remarks (title : String) (style : Style) (bullet : String) (lines : List String) : Styled :=
  if lines.isEmpty then []
  else
    plain "\n  " ++ paint .bold title ++ plain "\n" ++
      lines.flatMap fun line => plain "  " ++ paint style bullet ++ plain (" " ++ line ++ "\n")

/-- The health score and what explains it. -/
def healthSection (r : Report) : Styled :=
  let h := r.health
  paint .bold "HEALTH" ++ plain "  Score: " ++ paint .bold (toString h.score ++ "/100") ++
    plain "  Grade: " ++ under [gradeStyle h.grade, .bold] (plain h.grade.letter) ++
    plain "\n  Code quality: " ++ categoryPoints h.breakdown.codeQuality ++
    plain "  Maintenance: " ++ categoryPoints h.breakdown.maintenance ++
    plain "  Documentation: " ++ categoryPoints h.breakdown.documentation ++
    plain "  Activity: " ++ categoryPoints h.breakdown.activity ++ plain "\n" ++
    remarks "Issues" .red "•" h.issues ++
    remarks "Recommendations" .green "→" h.recommendations ++ plain "\n"

/-! ### The whole report -/

/-- The report as styled text. -/
def styled (r : Report) : Styled :=
  headingSection r ++ overviewSection r ++ languagesSection r ++ largestSection r ++
    foldersSection r ++ markersSection r ++ historySection r ++ dependenciesSection r ++
    healthSection r

/-- The report as text, in colour or freed of every escape sequence. -/
def textReport (r : Report) (colour : Bool) : List Char :=
  let shown := (styled r).coloured
  if colour then shown else Escapes.strip shown

end CodeCensus.Report
