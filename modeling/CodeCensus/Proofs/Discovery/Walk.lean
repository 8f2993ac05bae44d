import CodeCensus.Proofs.Discovery.Patterns
import CodeCensus.Proofs.FileSystem.Resolve
import CodeCensus.Proofs.Ignore.Scope
import Mathlib.Data.List.Infix

/-!
# What a search finds

A search goes down a tree with the layers of the directories that it has entered, and does not enter the
directories that are passed over.  For one file the same is said by its names alone: the search reaches
it if no entry on the way to it is passed over, where the layers in force are those of the directories
on the way.  So what is found are the files of the whole tree that the search reaches, in their order
(`found_eq_filter`).

Whether an entry is passed over is said without layers and verdicts by `Skipped`: a pattern excludes it, or
it is dropped for another reason (`Dropped`), on which patterns have no influence.  This is that the rule
that decides on it says so, or that it is hidden and no deciding rule keeps it.
-/

namespace CodeCensus.Discovery

open FileSystem (Disk Place Tree Entry)
open Ignore (Rule Layer WrittenRule layersIn layersIn_nil layersIn_concat)

variable {disk : Disk} {exclude : List String} {rules : List Rule} {root : Place}

/-! ### Entries that are passed over -/

/-- The rule that decides on an entry below a root. -/
def DecidesBelow (disk : Disk) (root : Place) (names : List FileName) (isDirectory : Bool)
    (written : WrittenRule) : Prop :=
  written.Decides disk root (root ++ names.dropLast) (root ++ names) isDirectory

/-- An entry is dropped if a rule in an ignore file decides that it is passed over, or if it is hidden and
no such rule keeps it. -/
def Dropped (disk : Disk) (root : Place) (names : List FileName) (isDirectory : Bool) : Prop :=
  (∃ written, DecidesBelow disk root names isDirectory written ∧ ¬ written.rule.keeps) ∨
    (∃ name, names.getLast? = some name ∧ isHidden name) ∧
      ¬ ∃ written, DecidesBelow disk root names isDirectory written ∧ written.rule.keeps

/-- An entry is skipped if a pattern excludes it, or else if it is dropped. -/
def Skipped (disk : Disk) (exclude : List String) (root : Place) (names : List FileName)
    (isDirectory : Bool) : Prop :=
  (∃ pattern ∈ exclude, Excludes pattern names isDirectory) ∨ Dropped disk root names isDirectory

/-- Whether an entry below a root is passed over. -/
def skipsBelow (disk : Disk) (rules : List Rule) (root : Place) (names : List FileName)
    (isDirectory : Bool) : Bool :=
  skips rules (layersIn disk root names.dropLast) root (root ++ names) isDirectory

/-- An entry is passed over if a rule is about it that is given from outside, or else if it is
dropped. -/
theorem skipsBelow_iff {names : List FileName} {isDirectory : Bool} (ne_nil : names ≠ [])
    (keeping : ∀ rule ∈ rules, rule.keeps) : skipsBelow disk rules root names isDirectory ↔
      (rules.any fun rule => rule.fits names isDirectory) ∨ Dropped disk root names isDirectory := by
  have hlast : (root ++ names).getLast? = names.getLast? := List.getLast?_append_of_ne_nil _ ne_nil
  unfold skipsBelow skips Dropped DecidesBelow
  simp only [← Ignore.deciding?_eq_some_iff]
  rw [Ignore.overrideAt?_eq keeping, Ignore.verdictAt?_eq, List.drop_left, hlast]
  by_cases excluded : rules.any fun rule => rule.fits names isDirectory
  · simp [excluded]
  · cases Ignore.deciding? (layersIn disk root names.dropLast) (root ++ names) isDirectory with
    | none => cases names.getLast? <;> simp [excluded]
    | some written => cases keeps : written.rule.keeps <;> simp [excluded, Rule.verdict, keeps]

/-- The same for the rules of patterns. -/
theorem skipsBelow_iff_skipped {names : List FileName} {isDirectory : Bool} (ne_nil : names ≠ [])
    (made : rulesOfPatterns exclude = .ok rules) :
    skipsBelow disk rules root names isDirectory ↔ Skipped disk exclude root names isDirectory := by
  rw [skipsBelow_iff ne_nil (keeps_of_rulesOfPatterns made), any_fits_iff made, Skipped]

/-! ### Files that are reached -/

/-- Whether a search that is in a directory reaches a file from there. -/
def reaches (disk : Disk) (rules : List Rule) (root : Place) (inner : List FileName) :
    List FileName → Bool
  | [] => true
  | name :: names =>
    !skipsBelow disk rules root (inner ++ [name]) (names ≠ []) &&
      reaches disk rules root (inner ++ [name]) names

/-- A file is reached if no entry on the way to it is passed over. -/
theorem reaches_iff {inner names : List FileName} : reaches disk rules root inner names ↔
    ∀ front, front ≠ [] → front <+: names →
      ¬ skipsBelow disk rules root (inner ++ front) (front ≠ names) := by
  induction names generalizing inner with
  | nil =>
    refine iff_of_true rfl fun front ne_nil hfront => ?_
    exact absurd (List.prefix_nil.1 hfront) ne_nil
  | cons name names ih =>
    have hone : decide ([name] ≠ name :: names) = decide (names ≠ []) := by
      cases names <;> simp
    rw [reaches, Bool.and_eq_true, ih, Bool.not_eq_true', ← Bool.not_eq_true, ← hone]
    constructor
    · rintro ⟨first, others⟩ front ne_nil hfront
      obtain ⟨second, front, rfl⟩ := List.exists_cons_of_ne_nil ne_nil
      obtain rfl := (List.cons_prefix_cons.1 hfront).1
      by_cases last : front = []
      · exact last ▸ first
      · have hothers := others front last (List.cons_prefix_cons.1 hfront).2
        rw [List.append_assoc, List.singleton_append] at hothers
        simpa using hothers
    · intro all
      refine ⟨all [name] (List.cons_ne_nil _ _) (List.prefix_append [name] names), ?_⟩
      intro front ne_nil hfront
      have hall := all (name :: front) (List.cons_ne_nil _ _) (List.cons_prefix_cons.2 ⟨rfl, hfront⟩)
      rw [List.append_assoc, List.singleton_append]
      simpa using hall

/-! ### The search -/

/-- What a search finds at an entry. -/
theorem found_cons (layers : List Layer) (above : Place) (name : FileName) (entry : Entry)
    (rest : Tree) : found disk rules root layers above (.cons name entry rest) =
      (match entry with
        | .file body =>
          if skips rules layers root (above ++ [name]) false then [] else [(above ++ [name], body)]
        | .link _ => []
        | .directory inside =>
          if skips rules layers root (above ++ [name]) true then []
          else found disk rules root (.ofDirectory disk (above ++ [name]) :: layers) (above ++ [name])
            inside) ++ found disk rules root layers above rest := by
  cases entry with
  | file body => rw [Tree.cons, found]; split <;> rfl
  | link target => rfl
  | directory inside => rw [Tree.cons, found]; split <;> rfl

/-- A search finds the files that it reaches, in the order of the tree. -/
theorem found_eq_filter (disk : Disk) (rules : List Rule) (root : Place) (inner : List FileName)
    (tree : Tree) :
    found disk rules root (layersIn disk root inner) (root ++ inner) tree =
      ((tree.files []).filter fun file => reaches disk rules root inner file.1).map
        fun file => (root ++ inner ++ file.1, file.2) := by
  have hskips : ∀ inner name isDirectory,
      skips rules (layersIn disk root inner) root (root ++ inner ++ [name]) isDirectory =
        skipsBelow disk rules root (inner ++ [name]) isDirectory := by
    intro inner name isDirectory
    unfold skipsBelow
    rw [List.dropLast_concat, List.append_assoc]
  -- The layers are those of the directories on the way to `inner`, and entering one more keeps this so.
  induction tree using Tree.consInduction generalizing inner with
  | empty => rfl
  | cons name entry rest ihInside ih =>
    rw [found_cons, Tree.files_cons, List.filter_append, List.map_append, ih inner]
    congr 1
    cases entry with
    | file body =>
      dsimp only [Entry.files]
      rw [hskips]
      cases hskip : skipsBelow disk rules root (inner ++ [name]) false <;>
        simp [reaches, hskip]
    | link target => rfl
    | directory inside =>
      dsimp only [Entry.files]
      -- A file inside is reached if the directory is not passed over and the file is reached from there.
      have hreaches : ∀ file ∈ inside.files [], reaches disk rules root inner (name :: file.1) =
          (!skipsBelow disk rules root (inner ++ [name]) true &&
            reaches disk rules root (inner ++ [name]) file.1) := by
        intro file mem
        rw [reaches, decide_eq_true (Tree.ne_nil_of_mem_files mem)]
      rw [hskips, List.nil_append, Tree.files_eq_map [name] inside, List.filter_map, List.map_map]
      simp only [Function.comp_def, List.singleton_append]
      rw [List.filter_congr hreaches]
      by_cases skip : skipsBelow disk rules root (inner ++ [name]) true
      · simp [skip]
      · have hinside := ihInside inside rfl (inner ++ [name])
        rw [layersIn_concat] at hinside
        simpa [skip] using hinside

/-- The same for a search that begins at its root. -/
theorem found_at_root (disk : Disk) (rules : List Rule) (root : Place) (tree : Tree) :
    found disk rules root (Ignore.layersAt disk root) root tree =
      ((tree.files []).filter fun file => reaches disk rules root [] file.1).map
        fun file => (root ++ file.1, file.2) := by
  have hfound := found_eq_filter disk rules root [] tree
  rwa [layersIn_nil, List.append_nil] at hfound

end CodeCensus.Discovery
