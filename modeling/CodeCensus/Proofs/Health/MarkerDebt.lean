import CodeCensus.Proofs.Census.Insertion
import CodeCensus.Proofs.Health.Categories
import Mathlib

/-!
# Markers and maintenance

A marker is a debt, and the number of markers never lowers what they take from the maintenance of a
project.  Whether many of them are critical, however, is only asked of the markers that are listed, and
the list is cut off.  A further marker that is not critical itself may push a critical one out of the
list, and if there were just enough of them to take points off, the project gets these points back
(`maintenance_raised_iff`).  Nothing else about a further marker raises the maintenance.
-/

namespace CodeCensus.Health

open Census (MarkerTable withLine)
open Marker (Kind)

/-! ### The table of markers -/

variable {contents : Contents} {files : List SourceFile} {length : Nat}

/-- The critical markers are counted among the first hundred. -/
theorem criticalMarkers_ofFiles :
    criticalMarkers (.ofFiles contents files length) =
      ((Census.kinds contents files).take 100).countP Kind.isCritical := by
  rw [← MarkerTable.map_kind_hits, ← List.map_take, List.countP_map]
  rfl

/-- Of the tables of markers of the same files, the second one is made with a further line in some
file, on which there is a marker of the given kind. -/
inductive GainsMarker (kind : Kind) : MarkerTable → MarkerTable → Prop where
  | line {line body : List Char} (noFeed : '\n' ∉ line)
      (marked : Marker.scanLine line = some (kind, body)) (contents : Contents) (path : Path)
      (place : Nat) (files : List SourceFile) (length : Nat) :
      GainsMarker kind (.ofFiles contents files length)
        (.ofFiles (withLine contents path place line) files length)

namespace GainsMarker

variable {kind : Kind} {before after : MarkerTable}

theorem total_le (gains : GainsMarker kind before after) : before.total ≤ after.total := by
  cases gains with
  | line noFeed marked contents path place files length =>
    rw [MarkerTable.total_ofFiles, MarkerTable.total_ofFiles]
    exact (Census.enlarged_kinds noFeed marked contents path place files).sublist.length_le

/-- The number of critical markers only goes down if a further marker that is not critical does not
leave room for all markers in the list. -/
theorem criticalMarkers_le (gains : GainsMarker kind before after)
    (enough : kind.isCritical ∨ after.total ≤ 100) : criticalMarkers before ≤ criticalMarkers after := by
  cases gains with
  | line noFeed marked contents path place files length =>
    have enlarged := Census.enlarged_kinds noFeed marked contents path place files
    rw [criticalMarkers_ofFiles, criticalMarkers_ofFiles]
    rcases enough with critical | fits
    · exact enlarged.countP_take_le critical 100
    · rw [MarkerTable.total_ofFiles] at fits
      exact enlarged.countP_take_le_of_fits fits

/-- Where the number of critical markers goes down, there are more markers than are listed. -/
theorem of_criticalMarkers_lt (gains : GainsMarker kind before after)
    (fewer : criticalMarkers after < criticalMarkers before) :
    kind.isCritical = false ∧ 100 < after.total := by
  constructor
  · by_contra critical
    exact fewer.not_ge (gains.criticalMarkers_le (.inl (by simpa using critical)))
  · by_contra fits
    exact fewer.not_ge (gains.criticalMarkers_le (.inr (by omega)))

end GainsMarker

/-! ### What a further marker does -/

/-- The maintenance of a project that has these markers, and everything else from the signals. -/
def maintenanceWith (s : Signals) (markers : MarkerTable) : Nat :=
  (score { s with markers }).breakdown.maintenance

/-- The points for maintenance are those that are left by markers, critical markers and dependencies. -/
theorem maintenanceWith_eq (s : Signals) (markers : MarkerTable) :
    maintenanceWith s markers = 25 - markerPoints markers.total -
      criticalPoints (criticalMarkers markers) - dependencyPoints s.dependencies :=
  maintenance_score _

/-- **What a further marker does to the maintenance.**  It does not raise it, with one exception: there
are more than fifty markers already, with the further one there are no longer more than five critical
ones in the list, and the dependencies leave some of the points.  Then there are five points more, there
are more markers than the list has room for, and the further marker is not critical. -/
theorem maintenance_raised_iff {kind : Kind} {before after : MarkerTable}
    (gains : GainsMarker kind before after) (s : Signals) :
    (maintenanceWith s before < maintenanceWith s after ↔
      50 < before.total ∧ 5 < criticalMarkers before ∧ criticalMarkers after ≤ 5 ∧
        dependencyPoints s.dependencies < 10) ∧
    (maintenanceWith s before < maintenanceWith s after →
      maintenanceWith s after = maintenanceWith s before + 5 ∧ 100 < after.total ∧
        kind.isCritical = false) := by
  have htotal := gains.total_le
  by_cases fewer : criticalMarkers after < criticalMarkers before
  · -- All markers together take the most points off, whatever they took before.
    obtain ⟨notCritical, crowded⟩ := gains.of_criticalMarkers_lt fewer
    have hmost : markerPoints after.total = 15 := if_pos (by omega)
    have hdependencies := dependencyPoints_cases s.dependencies
    rw [maintenanceWith_eq, maintenanceWith_eq, hmost]
    simp only [notCritical, crowded, and_self, and_true]
    unfold markerPoints criticalPoints
    split_ifs <;> omega
  · -- Neither the number of markers nor that of the critical ones in the list goes down.
    have hnever : maintenanceWith s after ≤ maintenanceWith s before := by
      have hmarkers := markerPoints_mono htotal
      have hcritical := criticalPoints_mono (not_lt.1 fewer)
      rw [maintenanceWith_eq, maintenanceWith_eq]
      omega
    constructor
    · refine iff_of_false hnever.not_gt ?_
      rintro ⟨-, many, few, -⟩
      omega
    · exact fun raised => absurd raised hnever.not_gt

/-! ### A note that hides a defect -/

/-- A text with a hundred markers, of which the last six are critical. -/
def crowdedText : String :=
  String.ofList (['\n'].intercalate
    (List.replicate 94 "// TODO: x".toList ++ List.replicate 6 "// FIXME: x".toList))

/-- The path of a file with this text. -/
def crowdedPath : Path := ⟨[0x61]⟩

/-- The file at this path. -/
def crowdedFile : SourceFile := ⟨crowdedPath, "a", "", "Text", 0⟩

/-- The markers of this file. -/
def crowdedMarkers : MarkerTable :=
  .ofFiles (fun _ => some crowdedText) [crowdedFile] 0

/-- The markers of this file with a note in front of them. -/
def notedMarkers : MarkerTable :=
  .ofFiles (withLine (fun _ => some crowdedText) crowdedPath 0 "// NOTE: x".toList) [crowdedFile] 0

/-- The second sample has one line more, with a note. -/
theorem gainsMarker_noted : GainsMarker .note crowdedMarkers notedMarkers := by
  have marked : Marker.scanLine "// NOTE: x".toList = some (.note, ['x']) := by cbv
  exact .line (by decide) marked _ _ _ _ _

/-- The first sample has a hundred markers, the last six of them critical. -/
theorem kinds_crowdedText :
    Marker.kinds crowdedText = List.replicate 94 Kind.todo ++ List.replicate 6 Kind.fixme := by
  have htodo : Marker.lineKind? "// TODO: x".toList = some .todo := by cbv
  have hfixme : Marker.lineKind? "// FIXME: x".toList = some .fixme := by cbv
  have hlines : Text.lines crowdedText.toList =
      List.replicate 94 "// TODO: x".toList ++ List.replicate 6 "// FIXME: x".toList := by
    rw [crowdedText, String.toList_ofList]
    refine Text.lines_intercalate ?_ (by simp)
    intro line mem
    rcases List.mem_append.1 mem with mem | mem <;> rw [List.eq_of_mem_replicate mem] <;> decide
  rw [Marker.kinds, hlines, List.filterMap_append, List.filterMap_replicate_of_some htodo,
    List.filterMap_replicate_of_some hfixme]

/-- With the note in front, they all come one place later. -/
theorem kinds_notedText :
    Marker.kinds (String.ofList (Text.insertLine 0 "// NOTE: x".toList crowdedText.toList)) =
      .note :: Marker.kinds crowdedText := by
  have hnote : Marker.lineKind? "// NOTE: x".toList = some .note := by cbv
  rw [Marker.kinds, String.toList_ofList, Text.lines_insertLine (by decide), List.take_zero,
    List.nil_append, List.filterMap_cons_some hnote, List.drop_zero, Marker.kinds]

/-- All six critical markers are listed. -/
theorem criticalMarkers_crowded : criticalMarkers crowdedMarkers = 6 ∧ crowdedMarkers.total = 100 := by
  have hkinds : Census.kinds (fun _ => some crowdedText) [crowdedFile] =
      List.replicate 94 Kind.todo ++ List.replicate 6 Kind.fixme := by
    rw [Census.kinds_singleton rfl, kinds_crowdedText]
  rw [crowdedMarkers, criticalMarkers_ofFiles, MarkerTable.total_ofFiles, hkinds]
  decide

/-- The last one of them is pushed out of the list. -/
theorem criticalMarkers_noted : criticalMarkers notedMarkers = 5 ∧ notedMarkers.total = 101 := by
  have hkinds : Census.kinds
      (withLine (fun _ => some crowdedText) crowdedPath 0 "// NOTE: x".toList) [crowdedFile] =
        .note :: (List.replicate 94 Kind.todo ++ List.replicate 6 Kind.fixme) := by
    rw [Census.kinds_singleton (if_pos rfl), kinds_notedText, kinds_crowdedText]
  rw [notedMarkers, criticalMarkers_ofFiles, MarkerTable.total_ofFiles, hkinds]
  decide

/-- A note pushes the sixth critical marker out of the list, and the project gets five points more. -/
theorem maintenance_raised_iff_noted :
    GainsMarker .note crowdedMarkers notedMarkers ∧
      maintenanceWith {} crowdedMarkers < maintenanceWith {} notedMarkers ∧
      maintenanceWith {} notedMarkers = maintenanceWith {} crowdedMarkers + 5 := by
  obtain ⟨critical, total⟩ := criticalMarkers_crowded
  obtain ⟨raised, gained⟩ := maintenance_raised_iff gainsMarker_noted {}
  have more : maintenanceWith {} crowdedMarkers < maintenanceWith {} notedMarkers := by
    refine raised.2 ⟨?_, ?_, criticalMarkers_noted.1.le, by decide⟩
    · omega
    · omega
  exact ⟨gainsMarker_noted, more, (gained more).1⟩

/-- A further marker may raise the maintenance. -/
theorem not_maintenance_antitone :
    ¬ ∀ (kind : Kind) (before after : MarkerTable), GainsMarker kind before after →
      ∀ s, maintenanceWith s after ≤ maintenanceWith s before := by
  intro antitone
  have hbefore : maintenanceWith {} crowdedMarkers = 5 := by
    rw [maintenanceWith_eq, criticalMarkers_crowded.1, criticalMarkers_crowded.2]
    decide
  have hafter : maintenanceWith {} notedMarkers = 10 := by
    rw [maintenanceWith_eq, criticalMarkers_noted.1, criticalMarkers_noted.2]
    decide
  have hle := antitone .note crowdedMarkers notedMarkers gainsMarker_noted {}
  omega

end CodeCensus.Health
