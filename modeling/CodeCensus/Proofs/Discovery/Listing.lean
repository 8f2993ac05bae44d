import CodeCensus.Proofs.Discovery.Walk
import CodeCensus.Proofs.Path
import CodeCensus.Proofs.Sorting
import CodeCensus.Proofs.Text
import Mathlib

/-!
# The list of the files of a project

The list has one entry for each file below the root that is reached and wanted, and the entries are in
the order of their paths (`files_exact`).  All this holds for every list of valid patterns; so lists can
be compared (`files_antitone`): whichever patterns are added, files can only drop out, and it makes no
difference in which order the patterns are given or how often.
-/

namespace CodeCensus.Discovery

open FileSystem (Disk Place Tree Entry)
open Ignore (Rule)
open CodeCensus.Path (IsName)

variable {disk : Disk} {root : Path} {target : Place} {inside : Tree} {rules more : List Rule}
  {exclude languages : List String}

/-- A tree as a file system has it. -/
structure IsProper (tree : Tree) : Prop where
  distinct : tree.Distinct
  named : tree.Every IsName

/-! ### Source files below a directory -/

/-- The source file at some names below a root. -/
def sourceFileBelow (root : Path) (file : List FileName × ByteArray) : SourceFile :=
  sourceFile root (file.1.foldl Path.child root) file.2

/-- The source files below a directory are those that a search reaches from there. -/
theorem sourceFiles_eq (resolved : FileSystem.resolve disk.root disk.working .follow root = .ok target)
    (directory : disk.root.at? target = some (.directory inside)) :
    sourceFiles disk rules root =
      ((inside.files []).filter fun file => reaches disk rules target [] file.1).map
        (sourceFileBelow root) := by
  have hsource : sourceFiles disk rules root =
      (found disk rules target (Ignore.layersAt disk target) target inside).map fun file =>
        sourceFileBelow root (file.1.drop target.length, file.2) := by
    unfold sourceFiles
    rw [resolved]
    -- The root is a directory itself or a link to one.
    rcases FileSystem.resolve_keep resolved with kept | ⟨place, link, kept, isLink⟩
    · rw [kept]
      dsimp only
      rw [directory]
      rfl
    · rw [kept]
      dsimp only
      rw [directory, isLink]
      rfl
  rw [hsource, found_at_root, List.map_map]
  refine List.map_congr_left fun file _ => ?_
  rw [Function.comp_apply, List.drop_left]

/-- It is where the joined names lead to from the root. -/
theorem sourceFileBelow_eq (proper : IsProper inside) {names : List FileName} {body : ByteArray}
    (stands : inside.at? names = some (.file body)) : sourceFileBelow root (names, body) =
      sourceFile root (root.join ⟨Ignore.pathBytes names⟩) body :=
  congrArg (sourceFile root · body) (Path.foldl_child_eq_join root (Tree.ne_nil_of_at?_file stands)
    (proper.named.of_at? stands))

/-! ### Languages -/

/-- What has to occur in a label for a language to be found in it. -/
def part (language : String) : List Char :=
  (Text.fold (String.ofList (Text.trim language.toList))).toList

/-- A label is wanted if it contains one of the languages, or if none of them says anything. -/
def Wants (languages : List String) (label : String) : Prop :=
  (∀ language ∈ languages, part language = []) ∨
    ∃ language ∈ languages, part language ≠ [] ∧ part language <:+: (Text.fold label).toList

/-- A file is wanted if no languages are given, or if its label is among them. -/
theorem isWanted_iff (file : SourceFile) : isWanted languages file ↔ Wants languages file.label := by
  have hempty : (wanted languages).isEmpty ↔ ∀ language ∈ languages, part language = [] := by
    rw [List.isEmpty_iff, wanted, List.filter_eq_nil_iff, List.forall_mem_map]
    simp [part]
  unfold isWanted Wants
  rw [Bool.or_eq_true, hempty, List.any_eq_true]
  simp [wanted, part, and_assoc]

/-! ### The list -/

/-- Whether a source file comes before another one. -/
def comesBefore (file other : SourceFile) : Bool :=
  file.relativePath ≤ other.relativePath

theorem comesBefore_trans (a b c : SourceFile) :
    comesBefore a b → comesBefore b c → comesBefore a c := by
  unfold comesBefore
  simp only [decide_eq_true_eq]
  exact String.le_trans

theorem comesBefore_total (a b : SourceFile) : comesBefore a b || comesBefore b a := by
  unfold comesBefore
  simpa using String.le_total a.relativePath b.relativePath

/-- The files that are wanted, in their order. -/
def listing (disk : Disk) (root : Path) (languages : List String) (rules : List Rule) :
    List SourceFile :=
  ((sourceFiles disk rules root).filter (isWanted languages)).mergeSort comesBefore

/-- With patterns that can be read, the files are the listing under the rules of these patterns. -/
theorem files_eq (made : rulesOfPatterns exclude = .ok rules) :
    files disk root ⟨exclude, languages⟩ = .ok (listing disk root languages rules) := by
  unfold files
  rw [made]
  rfl

/-- The list has the files that are reached and wanted. -/
theorem mem_listing_iff (resolved : FileSystem.resolve disk.root disk.working .follow root = .ok target)
    (directory : disk.root.at? target = some (.directory inside)) (distinct : inside.Distinct)
    {file : SourceFile} : file ∈ listing disk root languages rules ↔
      ∃ names body, inside.at? names = some (.file body) ∧ reaches disk rules target [] names ∧
        file = sourceFileBelow root (names, body) ∧ Wants languages file.label := by
  rw [listing, List.mem_mergeSort, List.mem_filter, isWanted_iff, sourceFiles_eq resolved directory,
    List.mem_map]
  simp only [List.mem_filter, Prod.exists, Tree.mem_files_nil_iff distinct]
  constructor
  · rintro ⟨⟨names, body, ⟨stands, reached⟩, rfl⟩, wants⟩
    exact ⟨names, body, stands, reached, rfl, wants⟩
  · rintro ⟨names, body, stands, reached, rfl, wants⟩
    exact ⟨⟨names, body, ⟨stands, reached⟩, rfl⟩, wants⟩

/-- A file below a root is reached if nothing on the way to it is skipped, and neither is the file. -/
def Reached (disk : Disk) (exclude : List String) (root : Place) (names : List FileName) : Prop :=
  ∀ front, front ≠ [] → front <+: names → ¬ Skipped disk exclude root front (front ≠ names)

/-- The walk comes to an entry if and only if nothing on the way to it is skipped, nor the entry itself. -/
theorem reaches_iff_reached {names : List FileName} (made : rulesOfPatterns exclude = .ok rules) :
    reaches disk rules target [] names ↔ Reached disk exclude target names := by
  rw [reaches_iff, Reached]
  refine forall_congr' fun front => forall_congr' fun ne_nil => forall_congr' fun _ => ?_
  rw [List.nil_append, skipsBelow_iff_skipped ne_nil made]

/-- A file with a name, in front of other entries. -/
def named (name text : String) (rest : Tree) : Tree :=
  .file name.toUTF8.data.toList text.toUTF8 rest

instance (languages : List String) (label : String) : Decidable (Wants languages label) :=
  inferInstanceAs (Decidable (_ ∨ _))

/-- More rules leave fewer source files. -/
theorem sourceFiles_sublist
    (more_skips : ∀ root names isDirectory, names ≠ [] → skipsBelow disk rules root names isDirectory →
      skipsBelow disk more root names isDirectory) :
    (sourceFiles disk more root).Sublist (sourceFiles disk rules root) := by
  have hfound : ∀ target inside,
      (found disk more target (Ignore.layersAt disk target) target inside).Sublist
        (found disk rules target (Ignore.layersAt disk target) target inside) := by
    intro target inside
    rw [found_at_root, found_at_root]
    refine List.Sublist.map _ (List.monotone_filter_right _ fun file reached => ?_)
    rw [reaches_iff] at reached ⊢
    intro front ne_nil hfront skipped
    exact reached front ne_nil hfront (more_skips target front _ ne_nil skipped)
  unfold sourceFiles
  split
  · split
    · exact List.Sublist.refl _
    · exact (hfound _ _).map _
    · exact List.Sublist.refl _
  · exact List.Sublist.refl _

/-- The list for more patterns is a part of the list for fewer. -/
theorem listing_sublist {other : List String} (made : rulesOfPatterns exclude = .ok rules)
    (made' : rulesOfPatterns other = .ok more) (sub : exclude ⊆ other) :
    (listing disk root languages more).Sublist (listing disk root languages rules) := by
  refine Sorting.mergeSort_sublist_mergeSort comesBefore_trans comesBefore_total
    (List.Sublist.filter _ (sourceFiles_sublist ?_))
  intro root names isDirectory ne_nil skipped
  rw [skipsBelow_iff_skipped ne_nil made] at skipped
  rw [skipsBelow_iff_skipped ne_nil made']
  rcases skipped with ⟨pattern, listed, excludes⟩ | dropped
  · exact .inl ⟨pattern, sub listed, excludes⟩
  · exact .inr dropped

/-- The list for some languages is the part of the list for all languages that is wanted. -/
theorem listing_eq_filter : listing disk root languages rules =
    (listing disk root [] rules).filter fun record => Wants languages record.label := by
  have hall : (sourceFiles disk rules root).filter (isWanted []) = sourceFiles disk rules root :=
    List.filter_eq_self.2 fun _ _ => rfl
  unfold listing
  rw [Sorting.filter_mergeSort comesBefore_trans comesBefore_total, hall]
  refine congrArg (List.mergeSort · comesBefore) (List.filter_congr fun record _ => ?_)
  rw [Bool.eq_iff_iff, isWanted_iff, decide_eq_true_iff]

/-- A file of a directory is listed if it is reached and wanted. -/
theorem sourceFileBelow_mem_iff
    (resolved : FileSystem.resolve disk.root disk.working .follow root = .ok target)
    (directory : disk.root.at? target = some (.directory inside)) (proper : IsProper inside)
    {names : List FileName} {body : ByteArray} (stands : inside.at? names = some (.file body)) :
    sourceFileBelow root (names, body) ∈ listing disk root languages rules ↔
      reaches disk rules target [] names ∧
        Wants languages (sourceFileBelow root (names, body)).label := by
  rw [mem_listing_iff resolved directory proper.distinct]
  constructor
  · rintro ⟨others, content, stands', reached, hrecord, wants⟩
    have hpath : names.foldl Path.child root = others.foldl Path.child root :=
      congrArg SourceFile.path hrecord
    obtain rfl := Path.eq_of_foldl_child_eq (proper.named.of_at? stands)
      (proper.named.of_at? stands') hpath
    exact ⟨reached, wants⟩
  · rintro ⟨reached, wants⟩
    exact ⟨names, body, stands, reached, rfl, wants⟩

/-- Patterns and languages only ever take files away, and their order does not matter. -/
theorem files_antitone {other : List String} (valid : ∀ pattern ∈ exclude, IsValid pattern)
    (valid' : ∀ pattern ∈ other, IsValid pattern) (disk : Disk) (root : Path) (languages : List String) :
    ∃ records records' unfiltered, files disk root ⟨exclude, languages⟩ = .ok records ∧
      files disk root ⟨other, languages⟩ = .ok records' ∧
      files disk root ⟨exclude, []⟩ = .ok unfiltered ∧
      ((∀ pattern, pattern ∈ exclude ↔ pattern ∈ other) → records = records') ∧
      (exclude ⊆ other → records'.Sublist records) ∧
      (∀ target inside, FileSystem.resolve disk.root disk.working .follow root = .ok target →
        disk.root.at? target = some (.directory inside) → IsProper inside →
        ∀ names front body, inside.at? names = some (.file body) → front ≠ [] → front <+: names →
          Dropped disk target front (front ≠ names) →
          sourceFile root (root.join ⟨Ignore.pathBytes names⟩) body ∉ records) ∧
      records = unfiltered.filter fun record => Wants languages record.label := by
  obtain ⟨rules, made⟩ := exists_rulesOfPatterns valid
  obtain ⟨more, made'⟩ := exists_rulesOfPatterns valid'
  refine ⟨_, _, _, files_eq made, files_eq made', files_eq made, ?_, listing_sublist made made', ?_,
    listing_eq_filter⟩
  · intro same
    have hsub : (listing disk root languages more).Sublist (listing disk root languages rules) :=
      listing_sublist made made' fun pattern => (same pattern).1
    have hsub' : (listing disk root languages rules).Sublist (listing disk root languages more) :=
      listing_sublist made' made fun pattern => (same pattern).2
    exact hsub'.antisymm hsub
  · intro target inside resolved directory proper names front body stands ne_nil hfront dropped
    rw [← sourceFileBelow_eq proper stands, sourceFileBelow_mem_iff resolved directory proper stands,
      reaches_iff_reached made]
    rintro ⟨reached, _⟩
    exact reached front ne_nil hfront (.inr dropped)

/-- A disk with four files: `.ignore`, which says `c` and `!.e`, and `.e`, `c` and `d/b`. -/
def keptDisk : Disk where
  root :=
    .file [0x2E, 0x69, 0x67, 0x6E, 0x6F, 0x72, 0x65] ⟨#[0x63, 0x0A, 0x21, 0x2E, 0x65]⟩ <|
      .file [0x2E, 0x65] .empty <| .file [0x63] .empty <|
      .directory [0x64] (.file [0x62] .empty .empty) .empty
  working := []

/-- A pattern that begins with an exclamation mark does not bring back the file that is ignored. -/
theorem files_antitone_kept :
    (∀ pattern ∈ ["!c"], IsValid pattern) ∧ (∀ pattern ∈ ["d/**", "!c", "!c"], IsValid pattern) ∧
      ∃ records records', files keptDisk ⟨[Path.slash]⟩ ⟨["!c"], [" OTHER ", ""]⟩ = .ok records ∧
        files keptDisk ⟨[Path.slash]⟩ ⟨["d/**", "!c", "!c"], [" OTHER ", ""]⟩ = .ok records' ∧
        records.map SourceFile.relativePath = [".e", "d/b"] ∧ records'.Sublist records := by
  have valid : ∀ pattern ∈ ["!c"], IsValid pattern :=
    List.forall_mem_singleton.2 (isValid_iff.2 (by cbv))
  have valid' : ∀ pattern ∈ ["d/**", "!c", "!c"], IsValid pattern := by
    rw [List.forall_mem_cons]
    exact ⟨isValid_iff.2 (by cbv), by simpa using valid⟩
  have shown : (files keptDisk ⟨[Path.slash]⟩ ⟨["!c"], [" OTHER ", ""]⟩).toOption.map
      (·.map SourceFile.relativePath) = some [".e", "d/b"] := by
    cbv
  obtain ⟨records, records', _, listed, listed', _, _, fewer, _⟩ :=
    files_antitone valid valid' keptDisk ⟨[Path.slash]⟩ [" OTHER ", ""]
  rw [listed] at shown
  exact ⟨valid, valid', records, records', listed, listed', Option.some.inj shown, fewer (by simp)⟩

end CodeCensus.Discovery
