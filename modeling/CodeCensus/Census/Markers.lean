import CodeCensus.Census.SourceFile
import CodeCensus.Marker.Scan
import CodeCensus.Ranking

/-!
# Markers per kind and per file

The markers of all readable files. Every marker is counted; the first hundred are also listed.
-/

namespace CodeCensus.Census

open Marker (Kind Hit)

/-! ### Entries -/

/-- A listed marker. -/
structure MarkerItem where
  kind : Kind
  text : String
  file : String
  line : Nat
  deriving DecidableEq, Repr

/-- How many markers a file has. -/
structure FileMarkers where
  file : String
  count : Nat := 0
  deriving DecidableEq, Repr

/-! ### The table -/

/-- The markers of a census. -/
structure MarkerTable where
  /-- The first markers found. -/
  items : List MarkerItem := []
  /-- How many markers of each kind there are, for the kinds that occur, in the order of kinds. -/
  byKind : List (Kind × Nat) := []
  /-- The files with most markers. -/
  byFile : List FileMarkers := []
  /-- How many markers there are. -/
  total : Nat := 0
  deriving DecidableEq, Repr

namespace MarkerTable

/-- The length of the ranking of files where none is asked for. -/
def standardLength : Nat := 15

/-- The number of markers that are listed. -/
def maxItems : Nat := 100

/-- All markers of some texts, in the order of the files and then of their lines. -/
def hits (texts : List (SourceFile × String)) : List MarkerItem :=
  texts.flatMap fun (file, text) =>
    (Marker.scan text).map fun hit => ⟨hit.kind, hit.text, file.relativePath, hit.line⟩

/-- How many markers of each kind there are. -/
def countKinds (hits : List MarkerItem) : List (Kind × Nat) :=
  Kind.all.filterMap fun kind =>
    let count := hits.countP (·.kind == kind)
    if count = 0 then none else some (kind, count)

/-- How many markers each file has, in the order in which the files are first seen. -/
def countFiles (hits : List MarkerItem) : List FileMarkers :=
  Ranking.gather FileMarkers.file MarkerItem.file (fun hit => ⟨hit.file, 1⟩)
    (fun _ entry => { entry with count := entry.count + 1 }) hits

/-- The table for what was found in some files, with a ranking of the given length. -/
def ofAnswers (answers : Answers) (length : Nat) : MarkerTable :=
  let hits := hits answers.texts
  { items := hits.take maxItems
    byKind := countKinds hits
    byFile := Ranking.top length standardLength FileMarkers.count (countFiles hits)
    total := hits.length }

/-- The table for a list of files, with a ranking of the given length. -/
def ofFiles (contents : Contents) (files : List SourceFile) (length : Nat) : MarkerTable :=
  ofAnswers (answers contents files) length

end MarkerTable

end CodeCensus.Census
