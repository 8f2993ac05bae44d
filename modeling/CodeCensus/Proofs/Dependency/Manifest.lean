import CodeCensus.Dependency.Manifest
import CodeCensus.Proofs.Dependency.Outdated
import CodeCensus.Proofs.Utf8
import Mathlib

/-!
# Summaries of dependencies

A manifest declares its dependencies in groups, one for each of the tables that it may have
(`isDeclaration_package`, `isDeclaration_crate`).  Which manifest is looked at is decided before any of them
is read (`summarize_of_package`, `summarize_of_crate`, `summarize_of_neither`).

The latest versions that are known are put into the entries afterwards.  This changes neither the names
nor the kinds, so the groups stay (`IsGrouped.map`), and `IsMarked` says of each version whether an entry has
it.
-/

namespace CodeCensus.Dependency

open FileSystem (Disk)

variable {disk : Disk} {root : Path} {check : Bool} {printed : Option String} {entries : List Entry}
  {kind : Kind} {kinds : List Kind}

/-! ### Counting -/

/-- A summary counts its entries: all of them, those of each kind, and those that are marked. -/
structure Summary.CountsEntries (summary : Summary) : Prop where
  total : summary.total = summary.entries.length
  outdated : summary.outdated = summary.entries.countP (·.outdated)
  prod : summary.counts.prod = summary.entries.countP (·.kind = .prod)
  dev : summary.counts.dev = summary.entries.countP (·.kind = .dev)
  peer : summary.counts.peer = summary.entries.countP (·.kind = .peer)
  optional : summary.counts.optional = summary.entries.countP (·.kind = .optional)
  build : summary.counts.build = summary.entries.countP (·.kind = .build)

/-- A summary that is made of entries counts them. -/
theorem Summary.countsEntries_ofEntries (manager : Manager) (hasLockfile : Bool) (entries : List Entry) :
    (Summary.ofEntries manager hasLockfile entries).CountsEntries := by
  have hcount : ∀ kind, entries.countP (·.kind == kind) = entries.countP (·.kind = kind) :=
    fun kind => List.countP_congr fun entry _ => by simp
  exact ⟨rfl, rfl, hcount _, hcount _, hcount _, hcount _, hcount _⟩

theorem Summary.countsEntries_empty : ({} : Summary).CountsEntries :=
  ⟨rfl, rfl, rfl, rfl, rfl, rfl, rfl⟩

/-- Every entry is of one kind. -/
theorem sum_countP_kind (entries : List Entry) :
    entries.countP (·.kind = .prod) + entries.countP (·.kind = .dev) + entries.countP (·.kind = .peer) +
      entries.countP (·.kind = .optional) + entries.countP (·.kind = .build) = entries.length := by
  induction entries with
  | nil => rfl
  | cons entry rest ih =>
    simp only [List.countP_cons, List.length_cons, ← ih]
    cases entry.kind <;> simp <;> omega

/-- Every entry is of one of the five kinds, so their numbers make up the total. -/
theorem Summary.CountsEntries.total_eq_sum {summary : Summary} (counts : summary.CountsEntries) :
    summary.total = summary.counts.prod + summary.counts.dev + summary.counts.peer +
      summary.counts.optional + summary.counts.build := by
  rw [counts.prod, counts.dev, counts.peer, counts.optional, counts.build, sum_countP_kind, counts.total]

/-! ### Groups -/

/-- Entries stand group by group, in the order of their kinds, and in each group by their names. -/
structure IsGrouped (kinds : List Kind) (entries : List Entry) : Prop where
  listed : ∀ entry ∈ entries, entry.kind ∈ kinds
  order : entries.Pairwise fun a b => kinds.idxOf a.kind < kinds.idxOf b.kind ∨
    a.kind = b.kind ∧ a.name.toUTF8.toList < b.name.toUTF8.toList

theorem IsGrouped.nil : IsGrouped kinds [] :=
  ⟨List.forall_mem_nil _, .nil⟩

/-- Entries stay in their groups if neither names nor kinds are changed. -/
theorem IsGrouped.map (grouped : IsGrouped kinds entries) {change : Entry → Entry}
    (kind : ∀ entry, (change entry).kind = entry.kind) (name : ∀ entry, (change entry).name = entry.name) :
    IsGrouped kinds (entries.map change) := by
  constructor
  · simpa only [List.forall_mem_map, kind] using grouped.listed
  · simpa only [List.pairwise_map, kind, name] using grouped.order

/-- An entry that nothing is known about. -/
def Entry.IsUnmarked (entry : Entry) : Prop :=
  entry.latest = none ∧ entry.outdated = false

/-- Entries of one kind with different names, in the order of their names. -/
structure IsGroup (kind : Kind) (group : List Entry) : Prop where
  kind : ∀ entry ∈ group, entry.kind = kind
  unmarked : ∀ entry ∈ group, entry.IsUnmarked
  order : group.Pairwise fun a b => a.name < b.name

theorem isGroup_nil : IsGroup kind [] :=
  ⟨List.forall_mem_nil _, List.forall_mem_nil _, .nil⟩

/-- A dictionary of versions makes a group. -/
theorem isGroup_versions {found? : Option (List (String × String))} {group : List Entry}
    (ordered : ∀ versions, found? = some versions → Dictionary.IsOrdered versions)
    (made : (found?.map fun versions => versions.map fun (name, version) =>
      { name := name, version := version, kind := kind }) = some group) : IsGroup kind group := by
  obtain ⟨versions, hversions, rfl⟩ := Option.map_eq_some_iff.1 made
  refine ⟨?_, ?_, List.pairwise_map.2 (ordered versions hversions)⟩
  · exact List.forall_mem_map.2 fun _ _ => rfl
  · exact List.forall_mem_map.2 fun _ _ => ⟨rfl, rfl⟩

/-- What a manifest declares. -/
structure IsDeclaration (kinds : List Kind) (entries : List Entry) : Prop where
  unmarked : ∀ entry ∈ entries, entry.IsUnmarked
  grouped : IsGrouped kinds entries

/-- Groups of different kinds, one after the other, are what a manifest declares. -/
theorem isDeclaration_flatten {groups : List (List Entry)} (different : kinds.Nodup)
    (isGroup : List.Forall₂ IsGroup kinds groups) : IsDeclaration kinds groups.flatten := by
  induction isGroup with
  | nil => exact ⟨List.forall_mem_nil _, .nil⟩
  | @cons kind group kinds groups first rest ih =>
    obtain ⟨new, others⟩ := List.nodup_cons.1 different
    obtain ⟨unmarked, grouped⟩ := ih others
    have hlater : ∀ entry ∈ groups.flatten, kind ≠ entry.kind :=
      fun entry mem same => new (same ▸ grouped.listed entry mem)
    rw [List.flatten_cons]
    refine ⟨fun entry mem => ?_, fun entry mem => ?_, List.pairwise_append.2 ⟨?_, ?_, ?_⟩⟩
    · exact (List.mem_append.1 mem).elim (first.unmarked entry) (unmarked entry)
    · rcases List.mem_append.1 mem with mem | mem
      · rw [first.kind entry mem]
        exact List.mem_cons_self
      · exact List.mem_cons_of_mem _ (grouped.listed entry mem)
    · refine first.order.imp_of_mem fun {a b} ha hb lt => Or.inr ⟨?_, Text.toList_toUTF8_lt_iff.2 lt⟩
      rw [first.kind a ha, first.kind b hb]
    · -- With one kind more in front, the numbers of all later kinds are higher by one.
      refine grouped.order.imp_of_mem fun {a b} ha hb order => order.imp_left fun lt => ?_
      rw [List.idxOf_cons_ne _ (hlater a ha), List.idxOf_cons_ne _ (hlater b hb)]
      exact Nat.succ_lt_succ lt
    · intro a ha b hb
      rw [first.kind a ha, List.idxOf_cons_self, List.idxOf_cons_ne _ (hlater b hb)]
      exact Or.inl (Nat.succ_pos _)

/-! ### Manifests -/

/-- Groups that are read one after the other are what a manifest declares. -/
theorem isDeclaration_of_mapM {γ : Type} {read : γ → Option (List Entry)} {kindOf : γ → Kind}
    {sources : List γ} {groups : List (List Entry)} (different : (sources.map kindOf).Nodup)
    (isGroup : ∀ source group, read source = some group → IsGroup (kindOf source) group)
    (found : sources.mapM read = some groups) :
    IsDeclaration (sources.map kindOf) groups.flatten :=
  isDeclaration_flatten different
    (List.forall₂_map_left_iff.2 ((mapM_eq_some_iff.1 found).imp fun source group => isGroup source group))

/-- The kinds of entries in a `package.json`. -/
def packageKinds : List Kind :=
  [.prod, .dev, .peer, .optional]

/-- The kinds of entries in a `Cargo.toml`. -/
def crateKinds : List Kind :=
  [.prod, .dev, .build]

/-- An object has each name once, in the order of names, however often the text has it. -/
theorem isOrdered_packageVersions {value : Json.Value} {versions : List (String × String)}
    (found : packageVersions? value = some versions) : Dictionary.IsOrdered versions := by
  cases value with
  | object members =>
    obtain ⟨entries, -, same⟩ := Option.bind_eq_some_iff.1 found
    cases same
    exact Dictionary.isOrdered_ofList entries
  | _ => cases found

/-- One field of a package gives entries of its kind, in the order of names, none of them marked. -/
theorem isGroup_packageEntries {field : Option Json.Value} {group : List Entry}
    (found : packageEntries? kind field = some group) : IsGroup kind group := by
  cases field with
  | none =>
    cases found
    exact isGroup_nil
  | some value =>
    refine isGroup_versions (fun versions => isOrdered_packageVersions) (?_ : (packageVersions? value).map _ = _)
    rwa [Option.map_eq_bind]

/-- Each of the fields is found or missing. -/
theorem length_fields? {names : List String} {value : Json.Value} {found : List (Option Json.Value)}
    (read : Json.fields? names value = some found) : found.length = names.length := by
  cases value with
  | object members =>
    obtain ⟨keyed, -, hfound⟩ := Option.bind_eq_some_iff.1 read
    exact (mapM_eq_some_iff.1 hfound).length_eq.symm
  | array elements =>
    rw [Json.fields?] at read
    split at read
    · cases read
      simp
      omega
    · cases read
  | _ => cases read

/-- A package declares its entries field by field, in the order in which the fields are looked at. -/
theorem isDeclaration_package {text : String} (found : packageManifest? text = some entries) :
    IsDeclaration packageKinds entries := by
  obtain ⟨value, -, found⟩ := Option.bind_eq_some_iff.1 found
  obtain ⟨fields, hfields, found⟩ := Option.bind_eq_some_iff.1 found
  obtain ⟨groups, hgroups, same⟩ := Option.bind_eq_some_iff.1 found
  cases same
  have hkinds : ((packageFields.map Prod.snd).zip fields).map Prod.fst = packageKinds :=
    List.map_fst_zip (length_fields? hfields).ge
  rw [← hkinds]
  refine isDeclaration_of_mapM ?_ (fun _ _ => isGroup_packageEntries) hgroups
  rw [hkinds]
  decide

/-- A table has each name once, in the order of names. -/
theorem isOrdered_crateVersions {value : Toml.Value} {versions : List (String × String)}
    (found : crateVersions? value = some versions) : Dictionary.IsOrdered versions := by
  cases value with
  | table members =>
    obtain ⟨entries, -, same⟩ := Option.bind_eq_some_iff.1 found
    cases same
    exact Dictionary.isOrdered_ofList _
  | datetime text =>
    cases found
    exact List.pairwise_singleton _ _
  | _ => cases found

/-- One table of a crate gives entries of its kind, in the order of names, none of them marked. -/
theorem isGroup_crateEntries {field : Option Toml.Value} {group : List Entry}
    (found : crateEntries? kind field = some group) : IsGroup kind group := by
  cases field with
  | none =>
    cases found
    exact isGroup_nil
  | some value =>
    refine isGroup_versions (fun versions => isOrdered_crateVersions) (?_ : (crateVersions? value).map _ = _)
    rwa [Option.map_eq_bind]

/-- A crate declares its entries table by table, in the order in which the tables are looked at. -/
theorem isDeclaration_crate {text : String} (found : crateManifest? text = some entries) :
    IsDeclaration crateKinds entries := by
  obtain ⟨value, -, found⟩ := Option.bind_eq_some_iff.1 found
  obtain ⟨groups, hgroups, same⟩ := Option.bind_eq_some_iff.1 found
  cases same
  exact isDeclaration_of_mapM (by decide) (fun _ _ => isGroup_crateEntries) hgroups

/-! ### Which manifest is looked at -/

/-- A file of the project is a manifest with some entries. -/
structure IsManifest (disk : Disk) (root : Path) (name : String) (read : String → Option (List Entry))
    (entries : List Entry) : Prop where
  isFile : disk.isFile (inProject root name)
  reads : ∃ text, disk.readText (inProject root name) = .ok text ∧ read text = some entries

/-- The project has a `package.json` with some entries. -/
def IsPackage (disk : Disk) (root : Path) (entries : List Entry) : Prop :=
  IsManifest disk root "package.json" packageManifest? entries

/-- The project has a `Cargo.toml` with some entries, and no file `package.json`. -/
def IsCrate (disk : Disk) (root : Path) (entries : List Entry) : Prop :=
  ¬ disk.isFile (inProject root "package.json") ∧ IsManifest disk root "Cargo.toml" crateManifest? entries

/-- The latest versions that are known. -/
def knownVersions (disk : Disk) (root : Path) (check : Bool) (printed : Option String) : LatestVersions :=
  if lockedBy? disk root = some .npm then (if check then printed.map latestVersions else none).getD []
  else []

/-- The entries of a manifest, if it can be read and is one. -/
def entriesIn? (disk : Disk) (root : Path) (name : String) (read : String → Option (List Entry)) :
    Option (List Entry) :=
  (disk.readText (inProject root name)).toOption.bind read

/-- A manifest with some entries is a regular file whose text is read as these entries. -/
theorem isManifest_iff {name : String} {read : String → Option (List Entry)} :
    IsManifest disk root name read entries ↔
      disk.isFile (inProject root name) ∧ entriesIn? disk root name read = some entries := by
  unfold entriesIn?
  cases hread : disk.readText (inProject root name) with
  | error fault =>
    refine iff_of_false (fun manifest => ?_) fun none => by cases none.2
    obtain ⟨-, text, hok, -⟩ := manifest
    cases hread.symm.trans hok
  | ok text =>
    constructor
    · rintro ⟨isFile, other, hok, hentries⟩
      cases hread.symm.trans hok
      exact ⟨isFile, hentries⟩
    · rintro ⟨isFile, hentries⟩
      exact ⟨isFile, text, hread, hentries⟩

/-- The summary of a package is that of the entries in its manifest, each with the latest version that npm
has told, if the package is one of npm. -/
theorem packageSummary?_eq (latest : Option LatestVersions) : packageSummary? disk root latest =
    (entriesIn? disk root "package.json" packageManifest?).map fun entries =>
      .ofEntries ((lockedBy? disk root).getD .unknown) (lockedBy? disk root).isSome
        (entries.map (·.withLatest (if lockedBy? disk root = some .npm then latest.getD [] else []))) := by
  unfold packageSummary? entriesIn?
  cases (disk.readText (inProject root "package.json")).toOption with
  | none => rfl
  | some text =>
    simp only [Option.bind_eq_bind, Option.bind_some]
    cases packageManifest? text <;> rfl

/-- The summary of a crate is that of the entries in its manifest, without anything marked. -/
theorem crateSummary?_eq : crateSummary? disk root =
    (entriesIn? disk root "Cargo.toml" crateManifest?).map
      (.ofEntries .cargo (disk.exists? (inProject root "Cargo.lock"))) := by
  unfold crateSummary? entriesIn?
  cases (disk.readText (inProject root "Cargo.toml")).toOption with
  | none => rfl
  | some text =>
    simp only [Option.bind_eq_bind, Option.bind_some]
    cases crateManifest? text <;> rfl

/-- Where there is a package, its entries are summarised, whether or not there is a crate as well. -/
theorem summarize_of_package (package : IsPackage disk root entries) :
    summarize disk root check printed =
      .ofEntries ((lockedBy? disk root).getD .unknown) (lockedBy? disk root).isSome
        (entries.map (·.withLatest (knownVersions disk root check printed))) := by
  obtain ⟨isFile, hentries⟩ := isManifest_iff.1 package
  simp only [summarize, if_pos isFile, packageSummary?_eq, hentries, Option.map_some, Option.getD_some,
    knownVersions]

/-- Where there is a crate and no package, the entries of the crate are summarised as they are. -/
theorem summarize_of_crate (crate : IsCrate disk root entries) :
    summarize disk root check printed =
      .ofEntries .cargo (disk.exists? (inProject root "Cargo.lock")) entries := by
  obtain ⟨noPackage, crate⟩ := crate
  obtain ⟨isFile, hentries⟩ := isManifest_iff.1 crate
  simp only [summarize, if_neg noPackage, if_pos isFile, crateSummary?_eq, hentries, Option.map_some,
    Option.getD_some]

/-- A manifest that cannot be read, or that is none, tells nothing. -/
theorem entriesIn?_eq_none {name : String} {read : String → Option (List Entry)}
    (isFile : disk.isFile (inProject root name))
    (noManifest : ∀ entries, ¬ IsManifest disk root name read entries) :
    entriesIn? disk root name read = none :=
  Option.eq_none_iff_forall_ne_some.2 fun entries found =>
    noManifest entries (isManifest_iff.2 ⟨isFile, found⟩)

/-- Where no manifest can be read, nothing is summarised. -/
theorem summarize_of_neither (noPackage : ∀ entries, ¬ IsPackage disk root entries)
    (noCrate : ∀ entries, ¬ IsCrate disk root entries) : summarize disk root check printed = {} := by
  by_cases package : disk.isFile (inProject root "package.json")
  · simp only [summarize, if_pos package, packageSummary?_eq, entriesIn?_eq_none package noPackage,
      Option.map_none, Option.getD_none]
  · by_cases crate : disk.isFile (inProject root "Cargo.toml")
    · have hnone := entriesIn?_eq_none crate fun entries manifest => noCrate entries ⟨package, manifest⟩
      simp only [summarize, if_neg package, if_pos crate, crateSummary?_eq, hnone, Option.map_none,
        Option.getD_none]
    · simp only [summarize, if_neg package, if_neg crate]

/-! ### Marks -/

/-- The project has the lockfile of npm, and none of another program. -/
structure UsesNpm (disk : Disk) (root : Path) : Prop where
  locked : disk.exists? (inProject root "package-lock.json")
  noPnpm : ¬ disk.exists? (inProject root "pnpm-lock.yaml")
  noYarn : ¬ disk.exists? (inProject root "yarn.lock")

/-- A package is one of npm if its lockfile is there and those that are looked for before it are not. -/
theorem lockedBy?_eq_npm_iff : lockedBy? disk root = some .npm ↔ UsesNpm disk root := by
  cases pnpm : disk.exists? (inProject root "pnpm-lock.yaml") with
  | true => exact iff_of_false (by simp [lockedBy?, lockfiles, pnpm]) fun npm => npm.noPnpm pnpm
  | false =>
    cases yarn : disk.exists? (inProject root "yarn.lock") with
    | true => exact iff_of_false (by simp [lockedBy?, lockfiles, pnpm, yarn]) fun npm => npm.noYarn yarn
    | false =>
      cases locked : disk.exists? (inProject root "package-lock.json") with
      | true =>
        refine iff_of_true (by simp [lockedBy?, lockfiles, pnpm, yarn, locked]) ⟨locked, ?_, ?_⟩
        · simp [pnpm]
        · simp [yarn]
      | false =>
        refine iff_of_false (by simp [lockedBy?, lockfiles, pnpm, yarn, locked]) fun npm => ?_
        simpa [locked] using npm.locked

/-- The version that is known of a name is what npm printed about it, provided that it was asked. -/
theorem lookup_knownVersions {name version : String} :
    (knownVersions disk root check printed).lookup name = some version ↔
      UsesNpm disk root ∧ check ∧ ∃ text, printed = some text ∧ (name, version) ∈ latestVersions text := by
  rw [knownVersions, ← lockedBy?_eq_npm_iff]
  split
  · next npm =>
    cases check with
    | false => simp
    | true =>
      cases printed with
      | none => simp
      | some text => simp [npm, (isOrdered_latestVersions text).mem_iff]
  · next other => simp [other]

namespace Entry

variable {latest : LatestVersions} {entry : Entry}

/-- An entry without what is known about its latest version. -/
def unmarked (entry : Entry) : Entry :=
  { entry with latest := none, outdated := false }

/-- Taking the mark off an entry without one leaves it as it is. -/
theorem IsUnmarked.unmarked_eq (isUnmarked : entry.IsUnmarked) : entry.unmarked = entry := by
  obtain ⟨hlatest, houtdated⟩ := isUnmarked
  rw [unmarked, ← hlatest, ← houtdated]

@[simp] theorem withLatest_kind (entry : Entry) : (entry.withLatest latest).kind = entry.kind := by
  unfold withLatest
  split <;> rfl

@[simp] theorem withLatest_name (entry : Entry) : (entry.withLatest latest).name = entry.name := by
  unfold withLatest
  split <;> rfl

/-- Taking the mark off again gives the entry that was marked, without its own mark. -/
@[simp] theorem unmarked_withLatest (entry : Entry) : (entry.withLatest latest).unmarked = entry.unmarked := by
  unfold withLatest
  split <;> rfl

/-- An entry is marked with what is known, if it is needed by the project itself. -/
theorem withLatest_spec (isUnmarked : entry.IsUnmarked) :
    ((entry.withLatest latest).outdated ↔ (entry.withLatest latest).latest.isSome) ∧
      ∀ version, (entry.withLatest latest).latest = some version ↔
        (entry.kind = .prod ∨ entry.kind = .dev) ∧ latest.lookup entry.name = some version := by
  obtain ⟨hlatest, houtdated⟩ := isUnmarked
  unfold withLatest
  cases entry.kind <;> simp [hlatest, houtdated]

end Entry

/-- The latest version that an entry is marked with.  It is looked for only if this is asked for, in a
project with a `package.json` in which npm is used, and only for what the project itself needs. -/
structure IsMark (disk : Disk) (root : Path) (check : Bool) (printed : Option String) (entry : Entry)
    (version : String) : Prop where
  asked : check
  package : ∃ entries, IsPackage disk root entries
  npm : UsesNpm disk root
  needed : entry.kind = .prod ∨ entry.kind = .dev
  known : ∃ text, printed = some text ∧ (entry.name, version) ∈ latestVersions text

/-- The entries of a `package.json` are marked with what is known. -/
theorem marked_of_package (package : IsPackage disk root entries) :
    ∀ entry ∈ entries.map (·.withLatest (knownVersions disk root check printed)),
      (entry.outdated ↔ entry.latest.isSome) ∧
        ∀ version, entry.latest = some version ↔ IsMark disk root check printed entry version := by
  obtain ⟨text, -, hentries⟩ := package.reads
  intro entry mem
  obtain ⟨declared, hdeclared, rfl⟩ := List.mem_map.1 mem
  have isUnmarked := (isDeclaration_package hentries).unmarked declared hdeclared
  obtain ⟨outdated, latest⟩ := Entry.withLatest_spec isUnmarked
  refine ⟨outdated, fun version => ?_⟩
  rw [latest, lookup_knownVersions]
  constructor
  · rintro ⟨needed, npm, asked, known⟩
    refine ⟨asked, ⟨_, package⟩, npm, ?_, ?_⟩
    · rwa [Entry.withLatest_kind]
    · rwa [Entry.withLatest_name]
  · -- There is a `package.json` anyway, as the entry is one of its entries.
    rintro ⟨asked, -, npm, needed, known⟩
    rw [Entry.withLatest_kind] at needed
    rw [Entry.withLatest_name] at known
    exact ⟨needed, npm, asked, known⟩

/-- The entries of a `Cargo.toml` are not marked. -/
theorem marked_of_crate (crate : IsCrate disk root entries) :
    ∀ entry ∈ entries, (entry.outdated ↔ entry.latest.isSome) ∧
      ∀ version, entry.latest = some version ↔ IsMark disk root check printed entry version := by
  obtain ⟨noPackage, -, text, -, hentries⟩ := crate
  intro entry mem
  obtain ⟨latest, outdated⟩ := (isDeclaration_crate hentries).unmarked entry mem
  refine ⟨by simp [latest, outdated], fun version => iff_of_false (by simp [latest]) ?_⟩
  rintro ⟨-, ⟨_, package⟩, -⟩
  exact noPackage package.isFile

/-! ### What is read of the project -/

/-- Two disks have the same below some names in the directory of the project. -/
def AgreeOn (disk other : Disk) (root : Path) (names : List String) : Prop :=
  ∀ name ∈ names, disk.entry? (inProject root name) = other.entry? (inProject root name)

/-- The files that are looked at in a project with a `package.json`. -/
def packageFiles : List String :=
  ["package.json", "pnpm-lock.yaml", "yarn.lock", "package-lock.json"]

/-- Nothing else is looked at. -/
theorem summarize_congr {other : Disk} (package : disk.isFile (inProject root "package.json"))
    (agree : AgreeOn disk other root packageFiles) :
    summarize disk root check printed = summarize other root check printed := by
  have hexists : ∀ name ∈ packageFiles,
      disk.exists? (inProject root name) = other.exists? (inProject root name) := by
    intro name mem
    rw [Disk.exists?, Disk.exists?, agree name mem]
  have hpackage : "package.json" ∈ packageFiles := List.mem_cons_self
  have hfile : disk.isFile (inProject root "package.json") = other.isFile (inProject root "package.json") := by
    rw [Disk.isFile, Disk.isFile, agree _ hpackage]
  have hread : disk.readText (inProject root "package.json") =
      other.readText (inProject root "package.json") := by
    rw [Disk.readText, Disk.readText, Disk.read, Disk.read, agree _ hpackage]
  have hlocked : lockedBy? disk root = lockedBy? other root := by
    have hnames : ∀ lockfile ∈ lockfiles, lockfile.1 ∈ packageFiles := by decide
    have hfind := List.find?_congr fun lockfile mem => hexists _ (hnames lockfile mem)
    exact congrArg (Option.map Prod.snd) hfind
  have hother : other.isFile (inProject root "package.json") := hfile.symm.trans package
  simp only [summarize, if_pos package, if_pos hother, packageSummary?, hread, hlocked]

/-! ### The summary -/

/-- A summary counts its entries, marks the right ones, and has them in groups. -/
structure Summary.IsConsistent (summary : Summary) (kinds : List Kind) (isMark : Entry → String → Prop) :
    Prop where
  counts : summary.CountsEntries
  marked : ∀ entry ∈ summary.entries, (entry.outdated ↔ entry.latest.isSome) ∧
    ∀ version, entry.latest = some version ↔ isMark entry version
  grouped : IsGrouped kinds summary.entries

/-- The summary of a project without manifest is consistent, with nothing to be marked. -/
theorem Summary.isConsistent_empty {isMark : Entry → String → Prop} :
    ({} : Summary).IsConsistent kinds isMark :=
  ⟨countsEntries_empty, List.forall_mem_nil _, .nil⟩

/-- The summary of a package is consistent: each of its entries has the mark that it should have, and no
other. -/
theorem isConsistent_of_package (package : IsPackage disk root entries) (manager : Manager)
    (hasLockfile : Bool) :
    (Summary.ofEntries manager hasLockfile
      (entries.map (·.withLatest (knownVersions disk root check printed)))).IsConsistent
        packageKinds (IsMark disk root check printed) := by
  obtain ⟨text, -, hentries⟩ := package.reads
  have grouped := (isDeclaration_package hentries).grouped
  exact ⟨Summary.countsEntries_ofEntries _ _ _, marked_of_package package,
    grouped.map Entry.withLatest_kind Entry.withLatest_name⟩

/-- The summary of a crate is consistent, and none of its entries has a mark. -/
theorem isConsistent_of_crate (crate : IsCrate disk root entries) (hasLockfile : Bool) :
    (Summary.ofEntries .cargo hasLockfile entries).IsConsistent crateKinds
      (IsMark disk root check printed) := by
  obtain ⟨text, -, hentries⟩ := crate.2.reads
  exact ⟨Summary.countsEntries_ofEntries _ _ _, marked_of_crate crate, (isDeclaration_crate hentries).grouped⟩

/-- Entries as they are declared have no marks. -/
theorem IsDeclaration.map_unmarked (declaration : IsDeclaration kinds entries) :
    entries.map Entry.unmarked = entries := by
  conv_rhs => rw [← List.map_id entries]
  exact List.map_congr_left fun entry mem => (declaration.unmarked entry mem).unmarked_eq

/-- Marking what a manifest declares adds nothing else to it. -/
theorem IsDeclaration.map_unmarked_withLatest (declaration : IsDeclaration kinds entries)
    {latest : LatestVersions} : (entries.map (·.withLatest latest)).map Entry.unmarked = entries := by
  have hcomp : Entry.unmarked ∘ (·.withLatest latest) = Entry.unmarked := funext Entry.unmarked_withLatest
  rw [List.map_map, hcomp, declaration.map_unmarked]

/-- The summary of a project is consistent, whichever manifest it was made from. -/
theorem isConsistent_summarize (disk : Disk) (root : Path) (check : Bool) (printed : Option String) :
    (summarize disk root check printed).IsConsistent
      (if disk.isFile (inProject root "package.json") then packageKinds else crateKinds)
      (IsMark disk root check printed) := by
  by_cases hpackage : ∃ entries, IsPackage disk root entries
  · obtain ⟨entries, package⟩ := hpackage
    rw [summarize_of_package package, if_pos package.isFile]
    exact isConsistent_of_package package _ _
  · by_cases hcrate : ∃ entries, IsCrate disk root entries
    · obtain ⟨entries, crate⟩ := hcrate
      rw [summarize_of_crate crate, if_neg crate.1]
      exact isConsistent_of_crate crate _
    · rw [summarize_of_neither (not_exists.1 hpackage) (not_exists.1 hcrate)]
      exact Summary.isConsistent_empty

/-- **The summary of dependencies is consistent and marks only what it may.**  It counts its entries, and
every entry is of one of the kinds that are counted.  An entry is outdated if and only if it has a latest
version, and this version is its mark.  The entries are those that the manifest declares, group by group,
and by their names in each group.  If there is a file `package.json`, nothing but it and the lockfiles is
looked at, and if it is no manifest then the summary is empty. -/
theorem summarize_consistent (disk : Disk) (root : Path) (check : Bool) (printed : Option String) :
    (summarize disk root check printed).IsConsistent
      (if disk.isFile (inProject root "package.json") then packageKinds else crateKinds)
      (IsMark disk root check printed) ∧
    (summarize disk root check printed).total =
      (summarize disk root check printed).counts.prod + (summarize disk root check printed).counts.dev +
        (summarize disk root check printed).counts.peer + (summarize disk root check printed).counts.optional +
        (summarize disk root check printed).counts.build ∧
    (∀ entries, IsPackage disk root entries ∨ IsCrate disk root entries →
      (summarize disk root check printed).entries.map Entry.unmarked = entries) ∧
    (disk.isFile (inProject root "package.json") →
      ((∀ entries, ¬ IsPackage disk root entries) → summarize disk root check printed = {}) ∧
      ∀ other, AgreeOn disk other root packageFiles →
        summarize disk root check printed = summarize other root check printed) := by
  have consistent := isConsistent_summarize disk root check printed
  refine ⟨consistent, consistent.counts.total_eq_sum, ?_, fun isFile => ⟨fun noPackage => ?_, fun other => ?_⟩⟩
  · rintro entries (package | crate)
    · obtain ⟨text, -, hentries⟩ := package.reads
      rw [summarize_of_package package]
      exact (isDeclaration_package hentries).map_unmarked_withLatest
    · obtain ⟨text, -, hentries⟩ := crate.2.reads
      rw [summarize_of_crate crate]
      exact (isDeclaration_crate hentries).map_unmarked
  · exact summarize_of_neither noPackage fun _ crate => crate.1 isFile
  · exact summarize_congr isFile

/-- The path of a project `p`. -/
def sampleRoot : Path := ⟨[0x2F, 0x70]⟩

/-- A disk with some files in this project. -/
def sampleDisk (files : List (String × String)) : Disk where
  root :=
    .directory [0x70]
      (files.foldr (fun (name, text) rest => .file name.toUTF8.toList text.toUTF8 rest) .empty) .empty
  working := []

/-- A `package.json` in which a name stands in two tables. -/
def npmPackage : String :=
  "\x7b\"dependencies\": \x7b\"a\": \"1\"\x7d, \"peerDependencies\": \x7b\"a\": \"1\"\x7d\x7d"

/-- A project with this manifest, in which npm is used. -/
def npmDisk : Disk :=
  sampleDisk [("package.json", npmPackage), ("package-lock.json", "")]

/-- What npm prints there. -/
def npmPrinted : String :=
  "\x7b\"a\": \x7b\"latest\": \"2\"\x7d\x7d"

/-- A `Cargo.toml`. -/
def crateText : String :=
  "[dependencies]\na = \"1\"\n"

/-- A project with this manifest, beside a `package.json` that is none. -/
def brokenDisk : Disk :=
  sampleDisk [("package.json", "\x7b"), ("Cargo.toml", crateText)]

/-- The sample declares one name twice, in two fields. -/
theorem isPackage_npm :
    IsPackage npmDisk sampleRoot [⟨"a", "1", .prod, none, false⟩, ⟨"a", "1", .peer, none, false⟩] := by
  have hread : npmDisk.readText (inProject sampleRoot "package.json") = .ok npmPackage := by cbv
  refine ⟨by cbv, npmPackage, hread, ?_⟩
  decide +kernel

/-- Only the first of its two entries is behind the latest version. -/
theorem summarize_npm : (summarize npmDisk sampleRoot true (some npmPrinted)).entries =
    [⟨"a", "1", .prod, some "2", true⟩, ⟨"a", "1", .peer, none, false⟩] := by
  have hlocked : lockedBy? npmDisk sampleRoot = some .npm := by cbv
  have hlatest : latestVersions npmPrinted = [("a", "2")] := by decide +kernel
  rw [summarize_of_package isPackage_npm]
  simp [knownVersions, hlocked, hlatest, Summary.ofEntries, Entry.withLatest]

/-- The crate beside the broken package can be read. -/
theorem isManifest_broken :
    IsManifest brokenDisk sampleRoot "Cargo.toml" crateManifest? [⟨"a", "1", .prod, none, false⟩] := by
  have hread : brokenDisk.readText (inProject sampleRoot "Cargo.toml") = .ok crateText := by cbv
  refine ⟨by cbv, crateText, hread, ?_⟩
  decide +kernel

/-- What a project needs itself is marked, but not what it is a peer of; and a `Cargo.toml` is not looked at
beside a broken `package.json`. -/
theorem summarize_consistent_npm :
    (summarize npmDisk sampleRoot true (some npmPrinted)).entries =
      [⟨"a", "1", .prod, some "2", true⟩, ⟨"a", "1", .peer, none, false⟩] ∧
    IsMark npmDisk sampleRoot true (some npmPrinted) ⟨"a", "1", .prod, some "2", true⟩ "2" ∧
    (∃ entries, IsManifest brokenDisk sampleRoot "Cargo.toml" crateManifest? entries) ∧
    brokenDisk.isFile (inProject sampleRoot "package.json") ∧
    (∀ entries, ¬ IsPackage brokenDisk sampleRoot entries) ∧
    summarize brokenDisk sampleRoot true none = {} := by
  have isFile : brokenDisk.isFile (inProject sampleRoot "package.json") := by cbv
  have noPackage : ∀ entries, ¬ IsPackage brokenDisk sampleRoot entries := by
    have hnone : entriesIn? brokenDisk sampleRoot "package.json" packageManifest? = none := by cbv
    intro entries package
    rw [IsPackage, isManifest_iff, hnone] at package
    cases package.2
  obtain ⟨consistent, -⟩ := summarize_consistent npmDisk sampleRoot true (some npmPrinted)
  obtain ⟨-, -, -, looked⟩ := summarize_consistent brokenDisk sampleRoot true none
  refine ⟨summarize_npm, ?_, ⟨_, isManifest_broken⟩, isFile, noPackage, (looked isFile).1 noPackage⟩
  refine ((consistent.marked _ ?_).2 "2").1 rfl
  rw [summarize_npm]
  exact List.mem_cons_self

end CodeCensus.Dependency
