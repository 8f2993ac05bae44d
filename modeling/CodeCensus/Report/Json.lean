import CodeCensus.Json.Printer
import CodeCensus.Report.Census

/-!
# The report as JSON

The report for programs: all of it, in a fixed order of members.
-/

namespace CodeCensus.Report

open Json (Value)

/-! ### Tables -/

/-- A list of values. -/
def values {α : Type} (f : α → Value) (xs : List α) : Value :=
  .array (xs.map f)

/-- A text that may be absent. -/
def optionalText : Option String → Value
  | none => .null
  | some s => .text s

/-- The row of a language. -/
def languageValue (s : Census.LanguageStats) : Value :=
  .record [("language", .text s.label), ("files", .nat s.files), ("code", .nat s.code),
    ("comments", .nat s.comments), ("blank", .nat s.blank), ("total", .nat s.total)]

/-- The row of all languages. -/
def totalsValue (t : Census.LineTotals) : Value :=
  .record [("files", .nat t.files), ("code", .nat t.code), ("comments", .nat t.comments),
    ("blank", .nat t.blank), ("total", .nat t.total)]

/-- The table of languages. -/
def languagesValue (t : Census.LanguageTable) : Value :=
  .record [("by_language", values languageValue t.languages), ("totals", totalsValue t.totals)]

/-- A file of the ranking by lines. -/
def largestValue (f : Census.LargestFile) : Value :=
  .record [("path", .text f.path), ("lines", .nat f.lines), ("size", .nat f.size)]

/-- A folder of the ranking by files. -/
def folderValue (f : Census.FolderStats) : Value :=
  .record [("path", .text f.displayPath), ("file_count", .nat f.fileCount),
    ("total_lines", .nat f.totalLines)]

/-- The two rankings. -/
def filesValue (t : Census.FileTable) : Value :=
  .record [("largest_files", values largestValue t.largest),
    ("folder_stats", values folderValue t.folders), ("total_files", .nat t.totalFiles),
    ("total_size", .nat t.totalSize)]

/-- A marker. -/
def itemValue (i : Census.MarkerItem) : Value :=
  .record [("type", .text i.kind.name), ("text", .text i.text), ("file", .text i.file),
    ("line", .nat i.line)]

/-- The markers of a file. -/
def fileMarkersValue (f : Census.FileMarkers) : Value :=
  .record [("file", .text f.file), ("count", .nat f.count)]

/-- The table of markers. -/
def markersValue (t : Census.MarkerTable) : Value :=
  .record [("items", values itemValue t.items),
    ("by_type", .record (t.byKind.map fun (kind, count) => (kind.name, .nat count))),
    ("by_file", values fileMarkersValue t.byFile), ("total", .nat t.total)]

/-! ### History and dependencies -/

/-- An author. -/
def contributorValue (c : History.Contributor) : Value :=
  .record [("name", .text c.name), ("email", .text c.email), ("commits", .nat c.commits)]

/-- A changed file. -/
def churnValue (c : History.FileChurn) : Value :=
  .record [("file", .text c.file), ("changes", .nat c.changes)]

/-- A day. -/
def dayValue (d : History.DayActivity) : Value :=
  .record [("date", .text d.date), ("commits", .nat d.commits)]

/-- The summary of the history. -/
def historyValue (h : History.Summary) : Value :=
  .record [("is_repository", .bool h.isRepository), ("total_commits", .nat h.totalCommits),
    ("contributors", values contributorValue h.contributors),
    ("file_churn", values churnValue h.fileChurn),
    ("recent_activity", values dayValue h.recentActivity),
    ("first_commit", optionalText h.firstCommit), ("last_commit", optionalText h.lastCommit),
    ("branches", .nat h.branches)]

/-- A dependency. -/
def dependencyValue (e : Dependency.Entry) : Value :=
  .record [("name", .text e.name), ("version", .text e.version), ("kind", .text e.kind.name),
    ("latest", optionalText e.latest), ("outdated", .bool e.outdated)]

/-- The number of dependencies of each kind. -/
def dependencyCountsValue (c : Dependency.Counts) : Value :=
  .record [("prod", .nat c.prod), ("dev", .nat c.dev), ("peer", .nat c.peer),
    ("optional", .nat c.optional), ("build", .nat c.build)]

/-- The summary of the manifest. -/
def dependenciesValue (d : Dependency.Summary) : Value :=
  .record [("package_manager", .text d.manager.name), ("has_lockfile", .bool d.hasLockfile),
    ("dependencies", values dependencyValue d.entries), ("total_deps", .nat d.total),
    ("outdated_count", .nat d.outdated), ("summary", dependencyCountsValue d.counts)]

/-! ### Health, and the whole report -/

/-- The points of each category. -/
def breakdownValue (b : Health.Breakdown) : Value :=
  .record [("code_quality", .nat b.codeQuality), ("maintenance", .nat b.maintenance),
    ("documentation", .nat b.documentation), ("activity", .nat b.activity)]

/-- The health score. -/
def healthValue (h : Health.Score) : Value :=
  .record [("grade", .text h.grade.letter), ("score", .nat h.score),
    ("breakdown", breakdownValue h.breakdown), ("issues", values .text h.issues),
    ("recommendations", values .text h.recommendations)]

/-- The report as a JSON value. -/
def value (r : Report) : Value :=
  .record [("project_name", .text r.projectName),
    ("generated_at", .text (String.ofList r.generatedAt.text)),
    ("loc", languagesValue r.languages), ("files", filesValue r.files),
    ("todos", markersValue r.markers), ("git", historyValue r.history),
    ("deps", dependenciesValue r.dependencies), ("health", healthValue r.health)]

/-- The report as JSON text. -/
def jsonReport (r : Report) : List Char :=
  Json.pretty 0 (value r)

end CodeCensus.Report
