import CodeCensus.Proofs.Census.Agreement
import CodeCensus.Proofs.Ranking.Order

/-!
# The table of markers, marker by marker

All parts of the table of markers are made from one list: the markers of the files that can be read, in the
order of the files and then of their lines.  To say which list this is, every marker is put beside the
place of its file among all files (`numberedHits`), as two files may have the same path.  The list then has
the markers of all lines (`mem_numberedHits_iff`), and it increases by file and line
(`pairwise_numberedHits`), so that it has each of them once.
-/

namespace CodeCensus

namespace Marker

/-- A marker of a file is the marker of one of its lines. -/
theorem mem_scan_iff {content : String} {hit : Hit} : hit ∈ scan content ↔
    ∃ before line, (Text.lines content.toList)[before]? = some line ∧ hit.line = before + 1 ∧
      scanLine line = some (hit.kind, hit.text.toList) := by
  rw [scan, List.mem_filterMap]
  constructor
  · rintro ⟨⟨line, number⟩, hline, hhit⟩
    obtain ⟨⟨kind, text⟩, found, rfl⟩ := Option.map_eq_some_iff.1 hhit
    obtain ⟨hfirst, hplace⟩ := List.mk_mem_zipIdx_iff_le_and_getElem?_sub.1 hline
    refine ⟨number - 1, line, hplace, (Nat.sub_add_cancel hfirst).symm, ?_⟩
    rw [found, String.toList_ofList]
  · rintro ⟨before, line, hplace, hnumber, found⟩
    refine ⟨(line, before + 1), ?_, ?_⟩
    · rw [List.mk_mem_zipIdx_iff_le_and_getElem?_sub]
      exact ⟨Nat.le_add_left 1 before, hplace⟩
    · simp only [found, Option.map_some, String.ofList_toList, ← hnumber]

/-- The markers of a file come from top to bottom, and no line has two of them. -/
theorem pairwise_scan (content : String) : (scan content).Pairwise fun a b => a.line < b.line := by
  rw [scan, List.pairwise_filterMap]
  refine (Ranking.pairwise_zipIdx _ 1).imp fun hlt a ha b hb => ?_
  obtain ⟨_, -, rfl⟩ := Option.map_eq_some_iff.1 ha
  obtain ⟨_, -, rfl⟩ := Option.map_eq_some_iff.1 hb
  exact hlt

end Marker

namespace Census

open Marker (Kind)

variable {contents : Contents} {files : List SourceFile}

/-! ### All markers -/

/-- The item is the marker of a line of the file at a place. -/
def IsMarkerAt (contents : Contents) (files : List SourceFile) (place : Nat) (item : MarkerItem) : Prop :=
  ∃ file text before line, files[place]? = some file ∧ contents file.path = some text ∧
    (Text.lines text.toList)[before]? = some line ∧
    Marker.scanLine line = some (item.kind, item.text.toList) ∧
    item.file = file.relativePath ∧ item.line = before + 1

/-- The markers of a file, if it can be read. -/
def markersOf (contents : Contents) (file : SourceFile) : List MarkerItem :=
  MarkerTable.hits ((contents file.path).map (file, ·)).toList

/-- The markers of all files, each with the place of its file. -/
def numberedHits (contents : Contents) (files : List SourceFile) : List (Nat × MarkerItem) :=
  files.zipIdx.flatMap fun entry => (markersOf contents entry.1).map (entry.2, ·)

/-- A marker of a file is one of the hits in its text, with the file and the line. -/
theorem mem_markersOf_iff {file : SourceFile} {item : MarkerItem} : item ∈ markersOf contents file ↔
    ∃ text, contents file.path = some text ∧
      ∃ hit ∈ Marker.scan text, ⟨hit.kind, hit.text, file.relativePath, hit.line⟩ = item := by
  rw [markersOf]
  cases contents file.path with
  | none => simp [MarkerTable.hits]
  | some text => simp [MarkerTable.hits]

/-- A file has no more than one marker on a line, and lists them from top to bottom. -/
theorem pairwise_markersOf (contents : Contents) (file : SourceFile) :
    (markersOf contents file).Pairwise fun a b => a.line < b.line := by
  rw [markersOf]
  cases contents file.path with
  | none => exact List.Pairwise.nil
  | some text =>
    rw [Option.map_some, Option.toList_some, MarkerTable.hits, List.flatMap_singleton, List.pairwise_map]
    exact Marker.pairwise_scan text

/-- The markers of the table are those of its files, one file after the other. -/
theorem hits_readable (contents : Contents) (files : List SourceFile) :
    MarkerTable.hits (readable contents files) = files.flatMap (markersOf contents) := by
  induction files with
  | nil => rfl
  | cons file files ih =>
    rw [readable_cons, MarkerTable.hits, List.flatMap_append, List.flatMap_cons, ← ih]
    rfl

/-- Without the places these are the markers of the table. -/
theorem map_snd_numberedHits (contents : Contents) (files : List SourceFile) :
    (numberedHits contents files).map Prod.snd = MarkerTable.hits (readable contents files) := by
  have hfile : ∀ entry : SourceFile × Nat,
      ((markersOf contents entry.1).map (entry.2, ·)).map Prod.snd = markersOf contents entry.1 := by
    intro entry
    rw [List.map_map]
    exact List.map_id _
  rw [numberedHits, List.map_flatMap, hits_readable]
  simp only [hfile]
  rw [← List.flatMap_map, List.zipIdx_map_fst]

/-- Every marker of a line is there. -/
theorem mem_numberedHits_iff {place : Nat} {item : MarkerItem} :
    (place, item) ∈ numberedHits contents files ↔ IsMarkerAt contents files place item := by
  rw [numberedHits, List.mem_flatMap]
  constructor
  · rintro ⟨⟨file, other⟩, hfile, hitem⟩
    obtain ⟨found, hfound, heq⟩ := List.mem_map.1 hitem
    obtain ⟨rfl, rfl⟩ := Prod.mk.inj heq
    obtain ⟨text, htext, hit, hhit, rfl⟩ := mem_markersOf_iff.1 hfound
    obtain ⟨before, line, hplace, hnumber, hline⟩ := Marker.mem_scan_iff.1 hhit
    exact ⟨file, text, before, line, List.mem_zipIdx_iff_getElem?.1 hfile, htext, hplace, hline, rfl,
      hnumber⟩
  · rintro ⟨file, text, before, line, hfile, htext, hplace, hline, hname, hnumber⟩
    have hhit : ⟨item.kind, item.text, item.line⟩ ∈ Marker.scan text :=
      Marker.mem_scan_iff.2 ⟨before, line, hplace, hnumber, hline⟩
    have hitem : item ∈ markersOf contents file :=
      mem_markersOf_iff.2 ⟨text, htext, _, hhit, by rw [← hname]⟩
    exact ⟨(file, place), List.mem_zipIdx_iff_getElem?.2 hfile, List.mem_map_of_mem hitem⟩

/-- The markers come in the order of the files, and those of a file in the order of its lines. -/
theorem pairwise_numberedHits (contents : Contents) (files : List SourceFile) :
    (numberedHits contents files).Pairwise fun a b =>
      a.1 < b.1 ∨ a.1 = b.1 ∧ a.2.line < b.2.line := by
  rw [numberedHits, List.pairwise_flatMap]
  constructor
  · rintro ⟨file, place⟩ -
    rw [List.pairwise_map]
    exact (pairwise_markersOf contents file).imp fun hlt => Or.inr ⟨rfl, hlt⟩
  · refine (Ranking.pairwise_zipIdx files 0).imp fun hlt a ha b hb => ?_
    obtain ⟨_, -, rfl⟩ := List.mem_map.1 ha
    obtain ⟨_, -, rfl⟩ := List.mem_map.1 hb
    exact Or.inl hlt

/-- No line of a file has two markers, where they come in this order. -/
theorem nodup_places {numbered : List (Nat × MarkerItem)} (sorted : numbered.Pairwise fun a b =>
    a.1 < b.1 ∨ a.1 = b.1 ∧ a.2.line < b.2.line) :
    (numbered.map fun hit => (hit.1, hit.2.line)).Nodup := by
  refine List.pairwise_map.2 (sorted.imp fun before same => ?_)
  obtain ⟨hplace, hline⟩ := Prod.mk.inj same
  omega

/-- The markers of one file come from top to bottom. -/
theorem pairwise_lines {numbered : List (Nat × MarkerItem)} (sorted : numbered.Pairwise fun a b =>
    a.1 < b.1 ∨ a.1 = b.1 ∧ a.2.line < b.2.line) (place : Nat) :
    ((numbered.filter fun hit => hit.1 = place).map fun hit => hit.2.line).Pairwise (· < ·) := by
  refine List.pairwise_map.2 ((sorted.filter _).imp_of_mem fun ha hb before => ?_)
  have hfirst := of_decide_eq_true (List.mem_filter.1 ha).2
  have hsecond := of_decide_eq_true (List.mem_filter.1 hb).2
  omega

/-! ### Kinds -/

namespace MarkerTable

variable {hits : List MarkerItem}

/-- How many of some markers are of a kind. -/
def ofKind (hits : List MarkerItem) (kind : Kind) : Nat :=
  hits.countP fun hit => hit.kind = kind

/-- A kind has a number if it occurs. -/
theorem ofKind_ne_zero_iff {kind : Kind} : ofKind hits kind ≠ 0 ↔ ∃ hit ∈ hits, hit.kind = kind := by
  rw [ofKind, ← Nat.pos_iff_ne_zero, List.countP_pos_iff]
  simp

/-- The kinds that occur are counted. -/
theorem countKinds_eq_map_filter (hits : List MarkerItem) : countKinds hits =
    (Kind.all.filter fun kind => ofKind hits kind ≠ 0).map fun kind => (kind, ofKind hits kind) := by
  rw [← List.filterMap_eq_map, ← List.filterMap_eq_filter, List.filterMap_filterMap, countKinds]
  refine List.filterMap_congr fun kind _ => ?_
  have hcount : hits.countP (·.kind == kind) = ofKind hits kind :=
    List.countP_congr fun hit _ => by simp
  simp only [hcount]
  by_cases nothing : ofKind hits kind = 0 <;> simp [nothing, Option.guard]

/-- Each kind that occurs is listed with its number, and no other kind is. -/
theorem mem_countKinds_iff {kind : Kind} {count : Nat} : (kind, count) ∈ countKinds hits ↔
    (∃ hit ∈ hits, hit.kind = kind) ∧ count = ofKind hits kind := by
  have hall : kind ∈ Kind.all := by cases kind <;> decide
  rw [countKinds_eq_map_filter, List.mem_map, ← ofKind_ne_zero_iff]
  constructor
  · rintro ⟨other, hother, heq⟩
    obtain ⟨rfl, rfl⟩ := Prod.mk.inj heq
    exact ⟨of_decide_eq_true (List.mem_filter.1 hother).2, rfl⟩
  · rintro ⟨occurs, rfl⟩
    exact ⟨kind, List.mem_filter.2 ⟨hall, decide_eq_true occurs⟩, rfl⟩

/-- No kind is counted twice. -/
theorem nodup_countKinds (hits : List MarkerItem) : ((countKinds hits).map Prod.fst).Nodup := by
  have hkinds : (countKinds hits).map Prod.fst = Kind.all.filter fun kind => ofKind hits kind ≠ 0 := by
    rw [countKinds_eq_map_filter, List.map_map]
    exact List.map_id _
  have hall : Kind.all.Nodup := by decide
  rw [hkinds]
  exact hall.filter _

/-- Every marker is of one kind. -/
theorem sum_ofKind (hits : List MarkerItem) : (Kind.all.map (ofKind hits)).sum = hits.length := by
  induction hits with
  | nil => rfl
  | cons hit hits ih =>
    have hcons : ∀ kind, ofKind (hit :: hits) kind =
        ofKind hits kind + if hit.kind = kind then 1 else 0 := by
      intro kind
      rw [ofKind, List.countP_cons]
      simp [ofKind]
    have hone : (Kind.all.map fun kind => if hit.kind = kind then 1 else 0).sum = 1 := by
      cases hit.kind <;> rfl
    rw [List.map_congr_left fun kind _ => hcons kind, List.sum_map_add, ih, hone, List.length_cons]

/-- The counts of all kinds add up to all markers. -/
theorem sum_countKinds (hits : List MarkerItem) : ((countKinds hits).map Prod.snd).sum = hits.length := by
  have hskip : ∀ kinds : List Kind,
      ((kinds.filter fun kind => ofKind hits kind ≠ 0).map (ofKind hits)).sum =
        (kinds.map (ofKind hits)).sum := by
    intro kinds
    induction kinds with
    | nil => rfl
    | cons kind kinds ih =>
      by_cases nothing : ofKind hits kind = 0 <;> simpa [nothing] using ih
  rw [countKinds_eq_map_filter, List.map_map, ← sum_ofKind, ← hskip]
  rfl

/-! ### Files -/

/-- How many of some markers are in files with a path. -/
def inFile (hits : List MarkerItem) (path : String) : Nat :=
  hits.countP fun hit => hit.file = path

/-- The files are the paths of their markers, ranked by number of markers. -/
theorem exists_ranked_countFiles (hits : List MarkerItem) :
    ∃ order, Ranking.Ranked (inFile hits) (hits.map MarkerItem.file) order ∧
      Ranking.descending FileMarkers.count (countFiles hits) =
        order.map fun path => ⟨path, inFile hits path⟩ := by
  have hkey : ∀ path, (FileMarkers.mk path (inFile hits path)).file = path := fun _ => rfl
  have htotals : ∀ weight ∈ [FileMarkers.count], ∀ path, weight ⟨path, inFile hits path⟩ =
      ((hits.filter fun hit => hit.file = path).map fun hit => weight ⟨hit.file, 1⟩).sum := by
    intro weight mem path
    obtain rfl : weight = FileMarkers.count := List.mem_singleton.1 mem
    simp [inFile, List.countP_eq_length_filter]
  exact addsUp.exists_ranked FileMarkers.count hkey htotals

/-- The numbers of all files make up the number of markers. -/
theorem sum_countFiles (hits : List MarkerItem) :
    ((countFiles hits).map FileMarkers.count).sum = hits.length := by
  rw [countFiles, Ranking.sum_gather (fun _ _ _ => rfl)]
  simp

/-- A ranking with room for all files has all markers. -/
theorem sum_top_countFiles {hits : List MarkerItem} {asked : Nat}
    (enough : (countFiles hits).length ≤ Ranking.limit asked standardLength) :
    ((Ranking.top asked standardLength FileMarkers.count (countFiles hits)).map FileMarkers.count).sum =
      hits.length := by
  rw [((Ranking.top_perm enough).map _).sum_eq, sum_countFiles]

/-- The table is made from the markers of all files. -/
theorem ofFiles_eq (contents : Contents) (files : List SourceFile) (asked : Nat) :
    ofFiles contents files asked =
      let items := (numberedHits contents files).map Prod.snd
      { items := items.take maxItems
        byKind := countKinds items
        byFile := Ranking.top asked standardLength FileMarkers.count (countFiles items)
        total := items.length } := by
  rw [map_snd_numberedHits]
  rfl

end MarkerTable

/-! ### The table -/

/-- **The table of markers.**  The markers of all lines of the files that can be read stand in one list, in
the order of the files and then of their lines, each line once.  The table has their number, their number
for each kind that occurs, the first hundred of them, and the files with most of them; a file stands in
that ranking with the markers of all files that have its path. -/
theorem markers_exact (contents : Contents) (files : List SourceFile) :
    let found := numberedHits contents files
    let items := found.map Prod.snd
    let table := MarkerTable.ofFiles contents files
    let limit : Nat → Nat := fun top => if top = 0 then 15 else top
    (∀ place item, (place, item) ∈ found ↔ IsMarkerAt contents files place item) ∧
    (found.Pairwise fun a b => a.1 < b.1 ∨ a.1 = b.1 ∧ a.2.line < b.2.line) ∧
    (found.map fun hit => (hit.1, hit.2.line)).Nodup ∧
    (∀ place, (((found.take (min 100 found.length)).filter fun hit => hit.1 = place).map
      fun hit => hit.2.line).Pairwise (· < ·)) ∧
    (∀ top, (table top).total = found.length ∧
      (table top).items = (found.take (min 100 found.length)).map Prod.snd ∧
      (∀ kind count, (kind, count) ∈ (table top).byKind ↔
        (∃ item ∈ items, item.kind = kind) ∧ count = MarkerTable.ofKind items kind) ∧
      ((table top).byKind.map Prod.fst).Nodup ∧
      ((table top).byKind.map Prod.snd).sum = (table top).total) ∧
    ∃ order : List String,
      Ranking.Ranked (MarkerTable.inFile items) (items.map MarkerItem.file) order ∧
      ∀ top, (table top).byFile = (order.take (min (limit top) order.length)).map
          (fun path => ⟨path, MarkerTable.inFile items path⟩) ∧
        (order.length ≤ limit top →
          ((table top).byFile.map FileMarkers.count).sum = (table top).total) := by
  intro found items table limit
  have htable : ∀ top, table top = _ := MarkerTable.ofFiles_eq contents files
  have hsorted := pairwise_numberedHits contents files
  obtain ⟨order, ranked, horder⟩ := MarkerTable.exists_ranked_countFiles items
  have hfiles : (MarkerTable.countFiles items).length = order.length := by
    rw [← (Ranking.descending_perm FileMarkers.count _).length_eq, horder, List.length_map]
  refine ⟨fun place item => mem_numberedHits_iff, hsorted, nodup_places hsorted,
    pairwise_lines (hsorted.sublist (List.take_sublist _ _)), ?_, order, ranked, ?_⟩
  · intro top
    rw [htable]
    refine ⟨List.length_map _, ?_, fun kind count => MarkerTable.mem_countKinds_iff,
      MarkerTable.nodup_countKinds items, MarkerTable.sum_countKinds items⟩
    rw [← List.take_eq_take_min, List.map_take]
    rfl
  · intro top
    rw [htable]
    exact ⟨Ranking.top_eq_map_take horder top, fun enough =>
      MarkerTable.sum_top_countFiles (hfiles.trans_le enough)⟩

/-- The same file twice, and one that cannot be read between them. -/
theorem markers_exact_repeated :
    let files := [markedFile, lostFile, markedFile]
    let table := MarkerTable.ofFiles markedContents files
    let item : MarkerItem := ⟨.todo, "x", "src/a.rs", 1⟩
    IsMarkerAt markedContents files 2 item ∧ (Kind.todo, 2) ∈ (table 0).byKind ∧
      (table 1).byFile = [⟨"src/a.rs", 2⟩] ∧
      ((table 1).byFile.map FileMarkers.count).sum = (table 1).total := by
  intro files table item
  have hfound : numberedHits markedContents files = [(0, item), (2, item)] := by decide
  obtain ⟨hplaces, -, -, -, htable, order, ranked, hfiles⟩ := markers_exact markedContents files
  have horder : order = ["src/a.rs"] :=
    ranked.unique ⟨by decide, fun path => by simp [hfound, item], by decide⟩
  refine ⟨?_, ?_, ?_, ?_⟩
  · exact (hplaces 2 item).1 (by rw [hfound]; decide)
  · obtain ⟨-, -, hkinds, -⟩ := htable 0
    exact (hkinds .todo 2).2 (by rw [hfound]; decide)
  · rw [(hfiles 1).1, horder]
    decide
  · exact (hfiles 1).2 (by rw [horder]; decide)

end Census

end CodeCensus
