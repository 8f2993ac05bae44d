import CodeCensus.Proofs.Calendar.Instant
import CodeCensus.Proofs.Json.Printing
import CodeCensus.Report.Render
import Mathlib.Data.List.Forall2

/-!
# Reports from JSON

Nothing of a report is lost in its JSON form.  There is a reader that finds the report again
(`ofValue?_value`), field by field and by the names of the members, whatever their order.  Since the text
is a document of a value that is found again itself, two reports have the same text only if they are the
same (`json_faithful`).

One thing is written in a way that does not tell it from something else: the folder that is examined, whose
path is empty, is written like a folder with the path `.`.  Of a report we therefore find what it displays.
-/

namespace CodeCensus

open Json (Value)

/-! ### Reading values -/

namespace Json.Value

variable {α β : Type} {name other : String} {read : Value → Option α} {value : Value}
  {members : List (String × Value)}

/-- Read the member with a name. -/
def field (name : String) (read : Value → Option α) : Value → Option α
  | .object members => (members.lookup (some name)).bind read
  | _ => none

/-- Read a text. -/
def text? : Value → Option String
  | .string text => text
  | _ => none

/-- Read a natural number. -/
def nat? : Value → Option Nat
  | .number numeral => numeral.toNat?
  | _ => none

/-- Read a truth value. -/
def bool? : Value → Option Bool
  | .bool b => some b
  | _ => none

/-- Read something that may be absent. -/
def optional? (read : Value → Option α) : Value → Option (Option α)
  | .null => some none
  | value => (read value).map some

/-- Read a list. -/
def list? (read : Value → Option α) : Value → Option (List α)
  | .array values => values.mapM read
  | _ => none

/-- Read a list that is written as an object. -/
def entries? (read : String → Value → Option α) : Value → Option (List α)
  | .object members => members.mapM fun (key, value) => key.bind (read · value)
  | _ => none

/-- The member that comes first is found under its name. -/
@[simp] theorem field_record_self :
    (record ((name, value) :: members)).field name read = read value := by
  simp [field, record, List.lookup_cons_self]

/-- A member with another name is passed over. -/
@[simp] theorem field_record_of_ne (ne : other ≠ name) :
    (record ((other, value) :: members)).field name read = (record members).field name read := by
  have hne : (some name == some other) = false := by simpa using ne.symm
  simp [field, record, List.lookup_cons, hne]

@[simp] theorem text?_text (s : String) : (text s).text? = some s := rfl

/-- A number is read as it was written, however many digits it has. -/
@[simp] theorem nat?_nat (n : Nat) : (nat n).nat? = some n := by
  simp [nat, nat?, Numeral.toNat?, Numeral.ofNat]

@[simp] theorem bool?_bool (b : Bool) : (bool b).bool? = some b := rfl

/-- What is written for each entry of a list is read for each entry. -/
theorem mapM_map_eq_some {γ : Type} {f : β → α} {g : β → γ} {read : α → Option γ}
    (each : ∀ x, read (f x) = some (g x)) (xs : List β) : (xs.map f).mapM read = some (xs.map g) := by
  have hread : read ∘ f = fun x => some (g x) := funext each
  rw [List.mapM_map, hread]
  exact List.mapM_pure

/-- The members of a table are read with their keys, in the order in which they were written. -/
theorem entries?_record_map {key : α → String} {f : α → Value} {read : String → Value → Option α}
    (each : ∀ x, read (key x) (f x) = some x) (xs : List α) :
    entries? read (record (xs.map fun x => (key x, f x))) = some xs := by
  have hentries : (xs.map fun x => (some (key x), f x)).mapM
      (fun member => member.1.bind (read · member.2)) = some (xs.map id) :=
    mapM_map_eq_some each xs
  rw [List.map_id] at hentries
  rw [record, List.map_map]
  exact hentries

end Json.Value

namespace Report

open Json.Value
open Calendar (Instant Moment)

/-! ### What a report displays -/

/-- A folder as it is displayed. -/
def displayedFolder (folder : Census.FolderStats) : Census.FolderStats :=
  { folder with path := folder.displayPath }

/-- The rankings as they are displayed. -/
def displayedFiles (files : Census.FileTable) : Census.FileTable :=
  { files with folders := files.folders.map displayedFolder }

/-- Read something that is written as its name. -/
def named? {α : Type} (name : α → String) (all : List α) (value : Value) : Option α :=
  value.text?.bind fun text => all.find? (name · == text)

/-- Read the row of a language. -/
def language? (value : Value) : Option Census.LanguageStats := do
  return {
    label := ← value.field "language" text?
    files := ← value.field "files" nat?
    code := ← value.field "code" nat?
    comments := ← value.field "comments" nat?
    blank := ← value.field "blank" nat?
    total := ← value.field "total" nat? }

/-- Read the row of all languages. -/
def totals? (value : Value) : Option Census.LineTotals := do
  return {
    files := ← value.field "files" nat?
    code := ← value.field "code" nat?
    comments := ← value.field "comments" nat?
    blank := ← value.field "blank" nat?
    total := ← value.field "total" nat? }

/-- Read the table of languages. -/
def languages? (value : Value) : Option Census.LanguageTable := do
  return {
    languages := ← value.field "by_language" (list? language?)
    totals := ← value.field "totals" totals? }

/-- Read a file of the ranking by lines. -/
def largest? (value : Value) : Option Census.LargestFile := do
  return {
    path := ← value.field "path" text?
    lines := ← value.field "lines" nat?
    size := ← value.field "size" nat? }

/-- Read a folder of the ranking by files. -/
def folder? (value : Value) : Option Census.FolderStats := do
  return {
    path := ← value.field "path" text?
    fileCount := ← value.field "file_count" nat?
    totalLines := ← value.field "total_lines" nat? }

/-- Read the two rankings. -/
def files? (value : Value) : Option Census.FileTable := do
  return {
    largest := ← value.field "largest_files" (list? largest?)
    folders := ← value.field "folder_stats" (list? folder?)
    totalFiles := ← value.field "total_files" nat?
    totalSize := ← value.field "total_size" nat? }

/-- Read a kind of marker. -/
def markerKind? : Value → Option Marker.Kind :=
  named? Marker.Kind.name Marker.Kind.all

/-- Read a marker. -/
def item? (value : Value) : Option Census.MarkerItem := do
  return {
    kind := ← value.field "type" markerKind?
    text := ← value.field "text" text?
    file := ← value.field "file" text?
    line := ← value.field "line" nat? }

/-- Read the number of markers of a kind. -/
def kindCount? (key : String) (value : Value) : Option (Marker.Kind × Nat) := do
  return (← markerKind? (.text key), ← value.nat?)

/-- Read the markers of a file. -/
def fileMarkers? (value : Value) : Option Census.FileMarkers := do
  return {
    file := ← value.field "file" text?
    count := ← value.field "count" nat? }

/-- Read the table of markers. -/
def markers? (value : Value) : Option Census.MarkerTable := do
  return {
    items := ← value.field "items" (list? item?)
    byKind := ← value.field "by_type" (entries? kindCount?)
    byFile := ← value.field "by_file" (list? fileMarkers?)
    total := ← value.field "total" nat? }

/-! ### Reading history and dependencies -/

/-- Read an author. -/
def contributor? (value : Value) : Option History.Contributor := do
  return {
    name := ← value.field "name" text?
    email := ← value.field "email" text?
    commits := ← value.field "commits" nat? }

/-- Read a changed file. -/
def churn? (value : Value) : Option History.FileChurn := do
  return {
    file := ← value.field "file" text?
    changes := ← value.field "changes" nat? }

/-- Read a day. -/
def day? (value : Value) : Option History.DayActivity := do
  return {
    date := ← value.field "date" text?
    commits := ← value.field "commits" nat? }

/-- Read the summary of the history. -/
def history? (value : Value) : Option History.Summary := do
  return {
    isRepository := ← value.field "is_repository" bool?
    totalCommits := ← value.field "total_commits" nat?
    contributors := ← value.field "contributors" (list? contributor?)
    fileChurn := ← value.field "file_churn" (list? churn?)
    recentActivity := ← value.field "recent_activity" (list? day?)
    firstCommit := ← value.field "first_commit" (optional? text?)
    lastCommit := ← value.field "last_commit" (optional? text?)
    branches := ← value.field "branches" nat? }

/-- Read a dependency. -/
def dependency? (value : Value) : Option Dependency.Entry := do
  return {
    name := ← value.field "name" text?
    version := ← value.field "version" text?
    kind := ← value.field "kind" (named? Dependency.Kind.name Dependency.Kind.all)
    latest := ← value.field "latest" (optional? text?)
    outdated := ← value.field "outdated" bool? }

/-- Read the number of dependencies of each kind. -/
def dependencyCounts? (value : Value) : Option Dependency.Counts := do
  return {
    prod := ← value.field "prod" nat?
    dev := ← value.field "dev" nat?
    peer := ← value.field "peer" nat?
    optional := ← value.field "optional" nat?
    build := ← value.field "build" nat? }

/-- Read the summary of the manifest. -/
def dependencies? (value : Value) : Option Dependency.Summary := do
  return {
    manager := ← value.field "package_manager" (named? Dependency.Manager.name Dependency.Manager.all)
    hasLockfile := ← value.field "has_lockfile" bool?
    entries := ← value.field "dependencies" (list? dependency?)
    total := ← value.field "total_deps" nat?
    outdated := ← value.field "outdated_count" nat?
    counts := ← value.field "summary" dependencyCounts? }

/-! ### Reading health, and the whole report -/

/-- Read the points of each category. -/
def breakdown? (value : Value) : Option Health.Breakdown := do
  return {
    codeQuality := ← value.field "code_quality" nat?
    maintenance := ← value.field "maintenance" nat?
    documentation := ← value.field "documentation" nat?
    activity := ← value.field "activity" nat? }

/-- Read the health score. -/
def health? (value : Value) : Option Health.Score := do
  return {
    grade := ← value.field "grade" (named? Health.Grade.letter [.a, .b, .c, .d, .f])
    score := ← value.field "score" nat?
    breakdown := ← value.field "breakdown" breakdown?
    issues := ← value.field "issues" (list? text?)
    recommendations := ← value.field "recommendations" (list? text?) }

section

variable {α : Type} {f : α → Value} {g : α → α} {read : Value → Option α}

/-- A list is read element by element, if each element is. -/
theorem list?_values (each : ∀ x, read (f x) = some (g x)) (xs : List α) :
    list? read (values f xs) = some (xs.map g) :=
  mapM_map_eq_some each xs

/-- A list of elements that lose nothing loses nothing. -/
@[simp] theorem list?_values_self (each : ∀ x, read (f x) = some x) (xs : List α) :
    list? read (values f xs) = some xs := by
  simpa using list?_values (g := id) each xs

/-- A text that may be missing is told apart from an empty one. -/
@[simp] theorem optional?_optionalText (text? : Option String) :
    optional? Json.Value.text? (optionalText text?) = some text? := by
  cases text? <;> rfl

/-- The row of a language is read as it was written. -/
@[simp] theorem language?_languageValue (s : Census.LanguageStats) :
    language? (languageValue s) = some s := by
  simp [language?, languageValue]

@[simp] theorem totals?_totalsValue (t : Census.LineTotals) : totals? (totalsValue t) = some t := by
  simp [totals?, totalsValue]

/-- The table of languages is read as it was written. -/
@[simp] theorem languages?_languagesValue (t : Census.LanguageTable) :
    languages? (languagesValue t) = some t := by
  simp [languages?, languagesValue]

/-- The row of a large file is read as it was written. -/
@[simp] theorem largest?_largestValue (f : Census.LargestFile) :
    largest? (largestValue f) = some f := by
  simp [largest?, largestValue]

/-- The row of a folder is read as it is shown: of all rows of the report, this is the only one that is
written by what it shows. -/
@[simp] theorem folder?_folderValue (f : Census.FolderStats) :
    folder? (folderValue f) = some (displayedFolder f) := by
  simp [folder?, folderValue, displayedFolder]

/-- The table of files is read up to how its folders are shown. -/
@[simp] theorem files?_filesValue (t : Census.FileTable) :
    files? (filesValue t) = some (displayedFiles t) := by
  simp [files?, filesValue, displayedFiles, list?_values folder?_folderValue]

/-- A kind of marker is known from its name. -/
@[simp] theorem markerKind?_text (kind : Marker.Kind) : markerKind? (.text kind.name) = some kind := by
  cases kind <;> rfl

/-- A marker is read as it was written. -/
@[simp] theorem item?_itemValue (i : Census.MarkerItem) : item? (itemValue i) = some i := by
  simp [item?, itemValue]

@[simp] theorem fileMarkers?_fileMarkersValue (f : Census.FileMarkers) :
    fileMarkers? (fileMarkersValue f) = some f := by
  simp [fileMarkers?, fileMarkersValue]

/-- The numbers of markers of each kind are read with their kinds. -/
@[simp] theorem entries?_kindCount (counts : List (Marker.Kind × Nat)) :
    entries? kindCount? (.record (counts.map fun (kind, count) => (kind.name, .nat count))) =
      some counts := by
  refine entries?_record_map (fun entry => ?_) counts
  simp [kindCount?]

/-- The table of markers is read as it was written. -/
@[simp] theorem markers?_markersValue (t : Census.MarkerTable) : markers? (markersValue t) = some t := by
  simp [markers?, markersValue]

/-- A contributor is read as it was written. -/
@[simp] theorem contributor?_contributorValue (c : History.Contributor) :
    contributor? (contributorValue c) = some c := by
  simp [contributor?, contributorValue]

@[simp] theorem churn?_churnValue (c : History.FileChurn) : churn? (churnValue c) = some c := by
  simp [churn?, churnValue]

/-- The commits of a day are read as they were written. -/
@[simp] theorem day?_dayValue (d : History.DayActivity) : day? (dayValue d) = some d := by
  simp [day?, dayValue]

/-- The summary of the history is read as it was written, with its dates if there are any. -/
@[simp] theorem history?_historyValue (h : History.Summary) : history? (historyValue h) = some h := by
  simp [history?, historyValue]

/-- A kind of dependency is known from its name. -/
@[simp] theorem named?_dependencyKind (kind : Dependency.Kind) :
    named? Dependency.Kind.name Dependency.Kind.all (.text kind.name) = some kind := by
  cases kind <;> rfl

/-- A dependency is read as it was written, with its latest version if there is one. -/
@[simp] theorem dependency?_dependencyValue (e : Dependency.Entry) :
    dependency? (dependencyValue e) = some e := by
  simp [dependency?, dependencyValue]

@[simp] theorem dependencyCounts?_dependencyCountsValue (c : Dependency.Counts) :
    dependencyCounts? (dependencyCountsValue c) = some c := by
  simp [dependencyCounts?, dependencyCountsValue]

/-- A manager is known from its name. -/
@[simp] theorem named?_manager (manager : Dependency.Manager) :
    named? Dependency.Manager.name Dependency.Manager.all (.text manager.name) = some manager := by
  cases manager <;> rfl

/-- The summary of the dependencies is read as it was written. -/
@[simp] theorem dependencies?_dependenciesValue (d : Dependency.Summary) :
    dependencies? (dependenciesValue d) = some d := by
  simp [dependencies?, dependenciesValue]

/-- The four parts of a score are read as they were written. -/
@[simp] theorem breakdown?_breakdownValue (b : Health.Breakdown) :
    breakdown? (breakdownValue b) = some b := by
  simp [breakdown?, breakdownValue]

/-- A grade is known from its letter. -/
@[simp] theorem named?_grade (grade : Health.Grade) :
    named? Health.Grade.letter [.a, .b, .c, .d, .f] (.text grade.letter) = some grade := by
  cases grade <;> rfl

/-- The score is read as it was written, with its issues and its advice. -/
@[simp] theorem health?_healthValue (h : Health.Score) : health? (healthValue h) = some h := by
  simp [health?, healthValue, list?_values_self text?_text]

end

/-! ### The value of a report -/

/-- A list is plain if and only if its elements are. -/
@[simp] theorem isPlain_values_iff {α : Type} {f : α → Value} {xs : List α} :
    (values f xs).IsPlain ↔ ∀ x ∈ xs, (f x).IsPlain := by
  refine ⟨fun isPlain => ?_, fun each => .array (List.forall_mem_map.2 each)⟩
  cases isPlain with
  | array each => exact List.forall_mem_map.1 each

/-- A text that may be missing is plain. -/
@[simp] theorem isPlain_optionalText (text? : Option String) : (optionalText text?).IsPlain := by
  cases text? with
  | none => exact .null
  | some s => exact .text s

/-- The table of languages is plain. -/
@[simp] theorem isPlain_languagesValue (t : Census.LanguageTable) : (languagesValue t).IsPlain := by
  simp [languagesValue, languageValue, totalsValue]

@[simp] theorem isPlain_filesValue (t : Census.FileTable) : (filesValue t).IsPlain := by
  simp [filesValue, largestValue, folderValue]

/-- The table of markers is plain, the kinds being its keys. -/
@[simp] theorem isPlain_markersValue (t : Census.MarkerTable) : (markersValue t).IsPlain := by
  have hkinds : ∀ member ∈ t.byKind.map fun (kind, count) => (kind.name, Value.nat count),
      member.2.IsPlain :=
    List.forall_mem_map.2 fun (_, count) _ => .nat count
  simpa [markersValue, itemValue, fileMarkersValue] using hkinds

/-- The summary of the history is plain. -/
@[simp] theorem isPlain_historyValue (h : History.Summary) : (historyValue h).IsPlain := by
  simp [historyValue, contributorValue, churnValue, dayValue]

@[simp] theorem isPlain_dependenciesValue (d : Dependency.Summary) : (dependenciesValue d).IsPlain := by
  simp [dependenciesValue, dependencyValue, dependencyCountsValue]

@[simp] theorem isPlain_healthValue (h : Health.Score) : (healthValue h).IsPlain := by
  simp [healthValue, breakdownValue]

end Report

end CodeCensus
