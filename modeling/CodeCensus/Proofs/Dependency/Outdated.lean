import CodeCensus.Dependency.Outdated
import CodeCensus.Proofs.Dictionary
import CodeCensus.Proofs.Json.Printing
import Mathlib.Data.List.Forall2
import Mathlib.Data.List.Infix

/-!
# Latest versions in a printed text

A printed text has a part that reaches from its first opening brace to its last closing one, or no closing
brace stands behind an opening one.  In the second case nothing is known.  In the first case, what stands
around this part does not matter (`braced?_append`), whatever braces of the other kind it has.

What is known from a document is said entry by entry, without reading it: `Tells` gives what an entry says
about the latest version, and of several entries with one name the last one counts.
-/

namespace CodeCensus.Dependency

open Json (Value Spells IsBlanks IsDocument)

/-! ### Braces -/

variable {text report before after : List Char}

/-- A text that begins with an opening brace and ends with a closing one. -/
structure IsBraced (report : List Char) : Prop where
  opens : report.head? = some '{'
  closes : report.getLast? = some '}'

/-- No closing brace stands behind an opening one. -/
def Unclosed (text : List Char) : Prop :=
  ∀ before after, text = before ++ '{' :: after → '}' ∉ after

/-- A report is found at its first character, if that does not come before it. -/
theorem dropWhile_append_of_notMem {c : Char} (notMem : c ∉ before) (begins : report.head? = some c) :
    (before ++ report).dropWhile (· != c) = report := by
  obtain ⟨rest, rfl⟩ := List.head?_eq_some_iff.1 begins
  have hne : ∀ other ∈ before, other != c := by
    intro other mem
    simpa using ne_of_mem_of_not_mem mem notMem
  rw [List.dropWhile_append_of_pos hne, List.dropWhile_cons_of_neg (by simp)]

/-- What stands around a braced text is left out. -/
theorem braced?_append (noOpening : '{' ∉ before) (noClosing : '}' ∉ after) (isBraced : IsBraced report) :
    braced? (before ++ report ++ after) = some report := by
  have hopening : (before ++ (report ++ after)).dropWhile (· != '{') = report ++ after := by
    refine dropWhile_append_of_notMem noOpening ?_
    rw [List.head?_append, isBraced.opens, Option.some_or]
  have hclosing : (after.reverse ++ report.reverse).dropWhile (· != '}') = report.reverse := by
    refine dropWhile_append_of_notMem (by rwa [List.mem_reverse]) ?_
    rw [List.head?_reverse, isBraced.closes]
  have hne : ¬ report.isEmpty := by
    obtain ⟨rest, rfl⟩ := List.head?_eq_some_iff.1 isBraced.opens
    simp
  unfold braced?
  dsimp only
  rw [List.append_assoc, hopening, List.reverse_append, hclosing, List.reverse_reverse, if_neg hne]

theorem braced?_self (isBraced : IsBraced report) : braced? report = some report := by
  simpa using braced?_append List.not_mem_nil List.not_mem_nil isBraced

/-- Where no brace is closed, no report is found. -/
theorem braced?_of_unclosed (unclosed : Unclosed text) : braced? text = none := by
  have hrest := List.head?_dropWhile_not (· != '{') text
  have hsplit := List.takeWhile_append_dropWhile (p := (· != '{')) (l := text)
  cases hfrom : text.dropWhile (· != '{') with
  | nil => simp [braced?, hfrom]
  | cons c rest =>
    rw [hfrom] at hrest hsplit
    obtain rfl : c = '{' := by simpa using hrest
    -- There is no closing brace from here on, so nothing is left when the end is cut off.
    have noClosing : '}' ∉ '{' :: rest := by
      simpa using unclosed _ rest hsplit.symm
    have hnone : ('{' :: rest).reverse.dropWhile (· != '}') = [] := by
      rw [List.dropWhile_eq_nil_iff]
      intro other mem
      simpa using ne_of_mem_of_not_mem (List.mem_reverse.1 mem) noClosing
    simp only [braced?, hfrom, hnone, List.reverse_nil, List.isEmpty_nil, if_true]

/-- The text of an object is braced. -/
theorem isBraced_of_spells {members : List (Option String × Value)}
    (spells : Spells (.value (.object members)) report) : IsBraced report := by
  cases spells with
  | emptyObject _ => exact ⟨rfl, List.getLast?_concat⟩
  | object _ => exact ⟨rfl, List.getLast?_concat⟩

/-- Blanks are none of the other characters, such as braces. -/
theorem notMem_of_isBlanks {c : Char} {blanks : List Char} (isBlanks : IsBlanks blanks)
    (noBlank : ¬ Json.Lexer.isBlank c) : c ∉ blanks :=
  fun mem => noBlank (isBlanks c mem)

/-- The braced part of a document is a document without blanks around it. -/
theorem exists_braced_of_isDocument {members : List (Option String × Value)}
    (document : IsDocument text (.object members)) :
    ∃ report, braced? text = some report ∧ Json.parse? report = some (.object members) := by
  cases document with
  | element blanksBefore blanksAfter spells =>
    have hparse := Json.parse?_of_isDocument (Json.isDocument_of_spells spells)
    refine ⟨_, braced?_append ?_ ?_ (isBraced_of_spells spells), hparse⟩
    · exact notMem_of_isBlanks blanksBefore (by decide)
    · exact notMem_of_isBlanks blanksAfter (by decide)

/-! ### Entries -/

/-- What an entry says about the latest version. -/
inductive Tells : Value → Option String → Prop where
  | nothing {fields : List (String × Value)} (absent : "latest" ∉ fields.map Prod.fst) :
      Tells (.record fields) none
  | null {before after : List (String × Value)} (once : "latest" ∉ (before ++ after).map Prod.fst) :
      Tells (.record (before ++ ("latest", .null) :: after)) none
  | version {before after : List (String × Value)} {version : String}
      (once : "latest" ∉ (before ++ after).map Prod.fst) :
      Tells (.record (before ++ ("latest", .text version) :: after)) (some version)

/-- A list gives what its entries give one by one. -/
theorem mapM_eq_some_iff {α β : Type} {f : α → Option β} {as : List α} {bs : List β} :
    as.mapM f = some bs ↔ List.Forall₂ (fun a b => f a = some b) as bs := by
  induction as generalizing bs with
  | nil => simp [eq_comm]
  | cons a as ih =>
    rw [List.mapM_cons, List.forall₂_cons_left_iff]
    cases f a with
    | none => simp
    | some b => cases hrest : as.mapM f <;> simp [← ih, hrest, eq_comm]

/-- What can be read element by element can be read as a whole. -/
theorem mapM_eq_some_map {α β : Type} {f : α → Option β} {g : α → β} {as : List α}
    (each : ∀ a ∈ as, f a = some (g a)) : as.mapM f = some (as.map g) :=
  mapM_eq_some_iff.2 (List.forall₂_map_right_iff.2 (List.forall₂_same.2 each))

/-- The fields of a record have their keys, as all of them are texts. -/
theorem mapM_keyed (fields : List (String × Value)) :
    (fields.map fun field => (some field.1, field.2)).mapM
      (fun (key, value) => Option.map (·, value) key) = some fields := by
  rw [List.mapM_map]
  exact (mapM_eq_some_map (g := id) fun _ _ => rfl).trans (congrArg some (List.map_id fields))

theorem filter_of_absent {name : String} {fields : List (String × Value)}
    (absent : name ∉ fields.map Prod.fst) : fields.filter (·.1 == name) = [] := by
  rw [List.filter_eq_nil_iff]
  rintro field mem same
  exact absent (List.mem_map.2 ⟨field, mem, eq_of_beq same⟩)

/-- A name that one field has selects this field. -/
theorem filter_of_once {name : String} {value : Value} {before after : List (String × Value)}
    (once : name ∉ (before ++ after).map Prod.fst) :
    (before ++ (name, value) :: after).filter (·.1 == name) = [(name, value)] := by
  rw [List.map_append, List.mem_append, not_or] at once
  rw [List.filter_append, filter_of_absent once.1, List.filter_cons, if_pos (beq_self_eq_true name),
    filter_of_absent once.2, List.nil_append]

/-- A field that is not there is missing. -/
theorem fields?_of_absent {name : String} {fields : List (String × Value)}
    (absent : name ∉ fields.map Prod.fst) : Json.fields? [name] (.record fields) = some [none] := by
  change Json.fieldsOfMembers? [name] (fields.map fun field => (some field.1, field.2)) = _
  unfold Json.fieldsOfMembers?
  rw [mapM_keyed]
  simp [filter_of_absent absent]

/-- A field that is there once is found. -/
theorem fields?_of_once {name : String} {value : Value} {before after : List (String × Value)}
    (once : name ∉ (before ++ after).map Prod.fst) :
    Json.fields? [name] (.record (before ++ (name, value) :: after)) = some [some value] := by
  change Json.fieldsOfMembers? [name]
    ((before ++ (name, value) :: after).map fun field => (some field.1, field.2)) = _
  unfold Json.fieldsOfMembers?
  rw [mapM_keyed]
  simp [filter_of_once once]

/-- The latest version in a record is that of its one field of this name, whatever the others say. -/
theorem latestOfEntry?_record {fields : List (String × Value)} {found : Option Value}
    (read : Json.fields? ["latest"] (.record fields) = some [found]) :
    latestOfEntry? (.record fields) = found.elim (some none) optionalText? := by
  unfold Value.record at read ⊢
  unfold latestOfEntry?
  simp only [read]
  cases found <;> rfl

/-- What an entry tells is read. -/
theorem latestOfEntry?_of_tells {entry : Value} {latest : Option String} (tells : Tells entry latest) :
    latestOfEntry? entry = some latest := by
  rcases tells with absent | once | once
  · exact latestOfEntry?_record (fields?_of_absent absent)
  · exact latestOfEntry?_record (fields?_of_once once)
  · exact latestOfEntry?_record (fields?_of_once once)

/-- An entry tells one thing only. -/
theorem Tells.unique {entry : Value} {latest other : Option String} (tells : Tells entry latest)
    (same : Tells entry other) : latest = other := by
  rw [← Option.some_inj, ← latestOfEntry?_of_tells tells, ← latestOfEntry?_of_tells same]

/-- What is read of an entry. -/
def told (entry : Value) : Option String :=
  latestOfEntry? entry |>.join

/-- What is read of an entry is what it tells, and nothing if it tells nothing. -/
theorem told_eq_iff {entry : Value} {latest other : Option String} (tells : Tells entry latest) :
    told entry = other ↔ Tells entry other := by
  rw [told, latestOfEntry?_of_tells tells, Option.join_some]
  constructor
  · rintro rfl
    exact tells
  · intro same
    exact tells.unique same

/-- The entries of a report are read one by one. -/
theorem outdatedEntries?_record {entries : List (String × Value)}
    (tells : ∀ entry ∈ entries, ∃ latest, Tells entry.2 latest) :
    outdatedEntries? (.record entries) =
      some (entries.map fun entry => (entry.1, told entry.2)) := by
  have hmembers : outdatedEntries? (.record entries) =
      (entries.map fun entry => (some entry.1, entry.2)).mapM fun member => do
        return (← member.1, ← latestOfEntry? member.2) := rfl
  rw [hmembers, List.mapM_map]
  refine mapM_eq_some_map fun entry mem => ?_
  obtain ⟨latest, htells⟩ := tells entry mem
  simp [told, latestOfEntry?_of_tells htells]

/-! ### What is known -/

/-- What is known from a printed text is found in its braced part. -/
theorem latestVersions_congr {printed other : String}
    (same : braced? printed.toList = braced? other.toList) : latestVersions printed = latestVersions other := by
  rw [latestVersions, latestVersions, same]

/-- Noise without a report tells no version. -/
theorem latestVersions_of_unclosed {printed : String} (unclosed : Unclosed printed.toList) :
    latestVersions printed = [] := by
  rw [latestVersions, braced?_of_unclosed unclosed]
  rfl

/-- A report that is a document tells the versions of its last entry under each name, in the order of names.
-/
theorem latestVersions_of_isDocument {report : String} {entries : List (String × Value)}
    (document : IsDocument report.toList (.record entries))
    (tells : ∀ entry ∈ entries, ∃ latest, Tells entry.2 latest) :
    latestVersions report =
      (Dictionary.ofList (entries.map fun entry => (entry.1, told entry.2))).filterMap
        fun (name, latest) => latest.map (name, ·) := by
  obtain ⟨text, hbraced, hparse⟩ := exists_braced_of_isDocument document
  have hentries : (do outdatedEntries? (← Json.parse? (← braced? report.toList))) =
      some (entries.map fun entry => (entry.1, told entry.2)) := by
    rw [hbraced, Option.bind_eq_bind, Option.bind_some, hparse, Option.bind_eq_bind, Option.bind_some]
    exact outdatedEntries?_record tells
  rw [latestVersions, hentries, Option.getD_some]

/-- The names with known versions are in order. -/
theorem isOrdered_latestVersions (printed : String) : Dictionary.IsOrdered (latestVersions printed) := by
  unfold latestVersions
  refine List.Pairwise.filterMap _ ?_ (Dictionary.isOrdered_ofList _)
  intro first second lt _ hfirst _ hsecond
  obtain ⟨version, -, rfl⟩ := Option.map_eq_some_iff.1 hfirst
  obtain ⟨other, -, rfl⟩ := Option.map_eq_some_iff.1 hsecond
  exact lt

/-- Of a report, the versions are known that the last entries of their names tell. -/
theorem mem_latestVersions_iff {report : String} {entries : List (String × Value)}
    (document : IsDocument report.toList (.record entries))
    (tells : ∀ entry ∈ entries, ∃ latest, Tells entry.2 latest) {name version : String} :
    (name, version) ∈ latestVersions report ↔
      ∃ entry, Dictionary.LastUnder entries name entry ∧ Tells entry (some version) := by
  have hmem : (name, version) ∈ latestVersions report ↔ (name, some version) ∈
      Dictionary.ofList (entries.map fun entry => (entry.1, told entry.2)) := by
    rw [latestVersions_of_isDocument document tells, List.mem_filterMap]
    constructor
    · rintro ⟨⟨other, latest⟩, mem, hlatest⟩
      obtain ⟨known, rfl, same⟩ := Option.map_eq_some_iff.1 hlatest
      cases same
      exact mem
    · intro mem
      exact ⟨_, mem, rfl⟩
  rw [hmem, Dictionary.mem_ofList_iff, Dictionary.lastUnder_map_iff]
  refine exists_congr fun entry => and_congr_right fun last => ?_
  obtain ⟨latest, htells⟩ := tells _ last.mem
  exact told_eq_iff htells

/-- **Noise around a report is harmless.**  From every text a dictionary is made, without two versions of
one name.  It is empty if no closing brace stands behind an opening one; otherwise it does not depend on
what stands in front of the first opening brace and behind the last closing one.  If there is an object each
of whose entries tells something about the latest version, the dictionary has exactly the versions that the
last entries of their names tell. -/
theorem latestVersions_robust :
    (∀ printed, Dictionary.IsOrdered (latestVersions printed)) ∧
    (∀ printed : String, Unclosed printed.toList → latestVersions printed = []) ∧
    (∀ before report after : String, '{' ∉ before.toList → '}' ∉ after.toList → IsBraced report.toList →
      latestVersions (before ++ report ++ after) = latestVersions report) ∧
    ∀ (report : String) (entries : List (String × Value)), IsDocument report.toList (.record entries) →
      (∀ entry ∈ entries, ∃ latest, Tells entry.2 latest) → ∀ name version,
        (name, version) ∈ latestVersions report ↔
          ∃ entry, Dictionary.LastUnder entries name entry ∧ Tells entry (some version) := by
  refine ⟨isOrdered_latestVersions, fun _ => latestVersions_of_unclosed, ?_, ?_⟩
  · intro before report after noOpening noClosing isBraced
    refine latestVersions_congr ?_
    rw [String.toList_append, String.toList_append, braced?_append noOpening noClosing isBraced,
      braced?_self isBraced]
  · intro report entries document tells name version
    exact mem_latestVersions_iff document tells

/-- The entries of a report in which a name stands twice. -/
def repeatedEntries : List (String × Value) :=
  [("a", .record [("latest", .text "1")]), ("b", .record [("current", .text "1")]),
    ("a", .record [("current", .text "1"), ("latest", .text "2")])]

/-- A text of this report. -/
def repeatedReport : String :=
  String.ofList (Json.pretty 0 (.record repeatedEntries))

/-- The sample is a document with two entries under one name. -/
theorem spells_repeatedReport : Spells (.value (.record repeatedEntries)) repeatedReport.toList := by
  rw [repeatedReport, String.toList_ofList]
  exact Json.spells_pretty (by simp [repeatedEntries]) 0

/-- Its second entry tells a version, beside a field that does not count. -/
theorem tells_second :
    Tells (.record ([("current", .text "1")] ++ ("latest", .text "2") :: [])) (some "2") :=
  .version (by simp)

/-- Each of its entries tells a version or that there is none. -/
theorem tells_repeatedEntries : ∀ entry ∈ repeatedEntries, ∃ latest, Tells entry.2 latest := by
  have first : Tells (.record ([] ++ ("latest", .text "1") :: [])) (some "1") := .version (by simp)
  have nothing : Tells (.record [("current", .text "1")]) none := .nothing (by simp)
  simp only [repeatedEntries, List.forall_mem_cons]
  exact ⟨⟨_, first⟩, ⟨_, nothing⟩, ⟨_, tells_second⟩, List.forall_mem_nil _⟩

/-- With stray braces around it, the report tells the second version of the name that stands twice. -/
theorem latestVersions_robust_repeated :
    '{' ∉ "npm \x7d ".toList ∧ '}' ∉ " \x7b".toList ∧ IsBraced repeatedReport.toList ∧
      IsDocument repeatedReport.toList (.record repeatedEntries) ∧
      (∀ entry ∈ repeatedEntries, ∃ latest, Tells entry.2 latest) ∧
      ("a", "2") ∈ latestVersions ("npm \x7d " ++ repeatedReport ++ " \x7b") ∧
      ("a", "1") ∉ latestVersions ("npm \x7d " ++ repeatedReport ++ " \x7b") ∧
      Unclosed "\x7d \x7b".toList ∧ latestVersions "\x7d \x7b" = [] := by
  obtain ⟨ordered, empty, noise, known⟩ := latestVersions_robust
  have noOpening : '{' ∉ "npm \x7d ".toList := by simp
  have noClosing : '}' ∉ " \x7b".toList := by simp
  have isBraced := isBraced_of_spells spells_repeatedReport
  have document := Json.isDocument_of_spells spells_repeatedReport
  have unclosed : Unclosed "\x7d \x7b".toList := by
    have htails : ∀ rest ∈ "\x7d \x7b".toList.tails, rest.head? = some '{' → '}' ∉ rest.tail := by
      decide
    intro before after split
    exact htails _ ((List.mem_tails _ _).2 ⟨before, split.symm⟩) rfl
  have last : Dictionary.LastUnder repeatedEntries "a" _ := ⟨repeatedEntries.take 2, [], rfl, by simp⟩
  have second : ("a", "2") ∈ latestVersions repeatedReport :=
    (known _ _ document tells_repeatedEntries _ _).2 ⟨_, last, tells_second⟩
  rw [noise _ _ _ noOpening noClosing isBraced]
  refine ⟨noOpening, noClosing, isBraced, document, tells_repeatedEntries, second, fun first => ?_, unclosed,
    empty _ unclosed⟩
  have lookup := (ordered _).mem_iff.1 second
  rw [(ordered _).mem_iff.1 first] at lookup
  simp at lookup

end CodeCensus.Dependency
