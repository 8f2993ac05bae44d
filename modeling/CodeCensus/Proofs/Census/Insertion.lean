import CodeCensus.Proofs.Census.Agreement
import CodeCensus.Proofs.Text
import Mathlib.Data.List.Basic

/-!
# Adding a marker

A line with a marker is added to a file.  In the list of all markers there is then one more wherever
the file is examined, and all others stay in their order (`enlarged_kinds`).  The score of a project
only sees the kinds of the first markers of this list.  More copies of an entry never make the part of a
list that is seen have less of what they are (`Enlarged.countP_take_le`); but where they do not count
themselves, they may push something that does count out of the part that is seen.
-/

namespace CodeCensus

/-! ### Lists with further copies of an entry -/

/-- The second list is the first one with further copies of an entry. -/
inductive Enlarged {α : Type} (a : α) : List α → List α → Prop where
  | nil : Enlarged a [] []
  | keep (b : α) {old new : List α} (rest : Enlarged a old new) : Enlarged a (b :: old) (b :: new)
  | add {old new : List α} (rest : Enlarged a old new) : Enlarged a old (a :: new)

namespace Enlarged

variable {α : Type} {a : α} {old new others further : List α} {p : α → Bool}

theorem refl (entries : List α) : Enlarged a entries entries := by
  induction entries with
  | nil => exact .nil
  | cons b entries ih => exact .keep b ih

theorem append (first : Enlarged a old new) (second : Enlarged a others further) :
    Enlarged a (old ++ others) (new ++ further) := by
  induction first with
  | nil => exact second
  | keep b _ ih => exact .keep b ih
  | add _ ih => exact .add ih

/-- A list of lists is enlarged with its parts. -/
theorem flatMap {β : Type} {f g : β → List α} (each : ∀ b, Enlarged a (f b) (g b)) (entries : List β) :
    Enlarged a (entries.flatMap f) (entries.flatMap g) := by
  induction entries with
  | nil => exact .nil
  | cons b entries ih =>
    rw [List.flatMap_cons, List.flatMap_cons]
    exact (each b).append ih

/-- What was there is still there, in its order. -/
theorem sublist (enlarged : Enlarged a old new) : old.Sublist new := by
  induction enlarged with
  | nil => exact .slnil
  | keep b _ ih => exact ih.cons_cons b
  | add _ ih => exact ih.cons a

/-- Copies that count do not lower the number of entries that count in any part at the front. -/
theorem countP_take_le (enlarged : Enlarged a old new) (counts : p a) (length : Nat) :
    (old.take length).countP p ≤ (new.take length).countP p := by
  induction enlarged generalizing length with
  | nil => exact Nat.le_refl _
  | keep b _ ih =>
    cases length with
    | zero => exact Nat.le_refl _
    | succ length =>
      rw [List.take_succ_cons, List.take_succ_cons, List.countP_cons, List.countP_cons]
      exact Nat.add_le_add_right (ih length) _
  | @add old new _ ih =>
    cases length with
    | zero => exact Nat.le_refl _
    | succ length =>
      -- The copy takes the place of whatever is the last entry of the part.
      have hlast : (old.take (length + 1)).countP p ≤ (old.take length).countP p + 1 := by
        rw [List.take_add_one, List.countP_append]
        have : old[length]?.toList.countP p ≤ old[length]?.toList.length := List.countP_le_length
        have : old[length]?.toList.length ≤ 1 := by cases old[length]? <;> simp
        omega
      rw [List.take_succ_cons, List.countP_cons_of_pos counts]
      exact hlast.trans (Nat.add_le_add_right (ih length) 1)

/-- Nothing is pushed out of a part that has all entries. -/
theorem countP_take_le_of_fits (enlarged : Enlarged a old new) {length : Nat}
    (fits : new.length ≤ length) : (old.take length).countP p ≤ (new.take length).countP p := by
  rw [List.take_of_length_le fits]
  exact ((List.take_sublist length old).trans enlarged.sublist).countP_le

end Enlarged

/-! ### A further line -/

namespace Text

/-- A text with a further line behind the given number of lines. -/
def insertLine (place : Nat) (line text : List Char) : List Char :=
  ['\n'].intercalate ((lines text).take place ++ line :: (lines text).drop place)

/-- A line that is put in stands between those before and those behind its place. -/
theorem lines_insertLine {line : List Char} (noFeed : '\n' ∉ line) (place : Nat) (text : List Char) :
    lines (insertLine place line text) =
      (lines text).take place ++ line :: (lines text).drop place := by
  refine lines_intercalate ?_ (by simp)
  intro other mem
  rcases List.mem_append.1 mem with before | mem
  · exact feed_notMem_of_mem_lines (List.mem_of_mem_take before)
  · rcases List.mem_cons.1 mem with rfl | behind
    · exact noFeed
    · exact feed_notMem_of_mem_lines (List.mem_of_mem_drop behind)

end Text

/-! ### The kinds of all markers -/

namespace Marker

/-- The kind of the marker of a line, if it has one. -/
def lineKind? (line : List Char) : Option Kind :=
  (scanLine line).map Prod.fst

/-- The kinds of the markers of a file, from top to bottom. -/
def kinds (content : String) : List Kind :=
  (Text.lines content.toList).filterMap lineKind?

/-- The kinds of the markers in a text are those that the score sees. -/
theorem map_kind_scan (content : String) : (scan content).map Hit.kind = kinds content := by
  have hkind : ∀ entry : List Char × Nat,
      ((scanLine entry.1).map fun found => Hit.mk found.1 (String.ofList found.2) entry.2).map
        Hit.kind = lineKind? entry.1 := by
    intro entry
    rw [Option.map_map, lineKind?]
    rfl
  rw [kinds, scan, List.map_filterMap]
  conv_rhs => rw [← List.zipIdx_map_fst 1 (Text.lines content.toList), List.filterMap_map]
  exact List.filterMap_congr fun entry _ => hkind entry

/-- A further line with a marker gives one more marker. -/
theorem enlarged_kinds_insertLine {line body : List Char} {kind : Kind} (noFeed : '\n' ∉ line)
    (marked : scanLine line = some (kind, body)) (place : Nat) (content : String) :
    Enlarged kind (kinds content)
      (kinds (String.ofList (Text.insertLine place line content.toList))) := by
  have hsplit : kinds content =
      ((Text.lines content.toList).take place).filterMap lineKind? ++
        ((Text.lines content.toList).drop place).filterMap lineKind? := by
    rw [← List.filterMap_append, List.take_append_drop]
    rfl
  have hline : lineKind? line = some kind := by
    rw [lineKind?, marked]
    rfl
  rw [hsplit, kinds, String.toList_ofList, Text.lines_insertLine noFeed, List.filterMap_append,
    List.filterMap_cons_some hline]
  exact (Enlarged.refl _).append (.add (.refl _))

end Marker

namespace Census

open Marker (Kind)

/-- The kinds of all markers of some files. -/
def kinds (contents : Contents) (files : List SourceFile) : List Kind :=
  files.flatMap fun file => ((contents file.path).map Marker.kinds).getD []

theorem kinds_singleton {contents : Contents} {file : SourceFile} {content : String}
    (found : contents file.path = some content) : kinds contents [file] = Marker.kinds content := by
  rw [kinds, List.flatMap_singleton, found]
  rfl

namespace MarkerTable

variable {contents : Contents} {files : List SourceFile} {length : Nat}

/-- The kinds in the table of markers are those of the files, in order. -/
theorem map_kind_hits : (hits (readable contents files)).map MarkerItem.kind = kinds contents files := by
  induction files with
  | nil => rfl
  | cons file files ih =>
    rw [readable_cons, hits, List.flatMap_append, List.map_append, kinds, List.flatMap_cons]
    refine congrArg₂ _ ?_ ih
    cases contents file.path with
    | none => rfl
    | some content =>
      simp only [Option.map_some, Option.toList_some, List.flatMap_cons, List.flatMap_nil,
        List.append_nil, Option.getD_some, ← Marker.map_kind_scan, List.map_map]
      rfl

theorem total_ofFiles : (ofFiles contents files length).total = (kinds contents files).length := by
  rw [← map_kind_hits, List.length_map]
  rfl

end MarkerTable

/-- Some contents in which the file at a path has a further line. -/
def withLine (contents : Contents) (path : Path) (place : Nat) (line : List Char) : Contents := fun other =>
  if other = path then
    (contents path).map fun text => String.ofList (Text.insertLine place line text.toList)
  else contents other

/-- A further line with a marker gives one more marker wherever the file is examined. -/
theorem enlarged_kinds {line body : List Char} {kind : Kind} (noFeed : '\n' ∉ line)
    (marked : Marker.scanLine line = some (kind, body)) (contents : Contents) (path : Path) (place : Nat)
    (files : List SourceFile) :
    Enlarged kind (kinds contents files) (kinds (withLine contents path place line) files) := by
  refine Enlarged.flatMap (fun file => ?_) files
  by_cases same : file.path = path
  · rw [withLine, if_pos same, same]
    cases contents path with
    | none => exact .nil
    | some content => exact Marker.enlarged_kinds_insertLine noFeed marked place content
  · rw [withLine, if_neg same]
    exact .refl _

end Census

end CodeCensus
