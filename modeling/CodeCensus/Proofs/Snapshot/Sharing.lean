import CodeCensus.Census.Files
import CodeCensus.Census.Languages
import CodeCensus.Census.Markers
import CodeCensus.Snapshot
import Mathlib

/-!
# Sharing a snapshot

Several readers use one snapshot at the same time, while the disk changes.  A call for a path looks the
path up; if it is new, the call reads the disk, and later it puts in what it found, unless another call
was faster.  Each of these steps is indivisible, but between two steps of one call anything may happen:
steps of other calls, and any change of the disk.

A schedule lists the steps in the order in which they happen, so a statement about all schedules is one
about all interleavings.  `Consistent` is the invariant: an answer that was given is what the snapshot
holds, and the snapshot holds as many entries as different paths were put in.  Since an entry never
changes (`find?_run`), the calls for one path have one answer, and the tables that are made from the
answers are the tables of one `Contents`.

The steps are those of the snapshot itself.  A call that nothing interrupts is a reading of it
(`run_replicate_advance`), and so calls that follow one another read the files of a list one after the other
(`ofFiles_eq_run`).
-/

namespace CodeCensus.Snapshot

/-! ### One snapshot -/

section Entries

variable {snapshot : Snapshot} {path other : Path} {found : Option String}

/-- What is kept for a path depends on its parts only. -/
theorem find?_congr (same : path.parts = other.parts) : snapshot.find? path = snapshot.find? other := by
  rw [find?, find?, same]

/-- A file is known by the parts of its path, however this is spelled. -/
theorem contents_congr (same : path.parts = other.parts) :
    snapshot.contents path = snapshot.contents other := by
  rw [contents, contents, find?_congr same]

@[simp] theorem find?_empty : find? {} path = none :=
  Std.HashMap.getElem?_empty

@[simp] theorem size_empty : size {} = 0 :=
  Std.HashMap.size_empty

/-- The entries are the paths about which something is known. -/
theorem mem_entries_iff : path.parts ∈ snapshot.entries ↔ (snapshot.find? path).isSome :=
  Std.HashMap.mem_iff_isSome_getElem?

/-- What is kept after an insertion: the new text, if it is for the same path and the path was new, and
what was kept before otherwise. -/
theorem find?_insertIfNew : (snapshot.insertIfNew path found).find? other =
    if path.parts = other.parts ∧ snapshot.find? path = none then some found
    else snapshot.find? other := by
  have hget : (snapshot.insertIfNew path found).find? other =
      if path.parts == other.parts ∧ ¬ path.parts ∈ snapshot.entries then some found
      else snapshot.find? other := Std.HashMap.getElem?_insertIfNew
  rw [hget]
  simp only [beq_iff_eq, mem_entries_iff, Option.not_isSome_iff_eq_none]

/-- What is kept stays. -/
theorem find?_insertIfNew_of_some {kept : Option String} (hkept : snapshot.find? other = some kept) :
    (snapshot.insertIfNew path found).find? other = some kept := by
  rw [find?_insertIfNew, if_neg, hkept]
  rintro ⟨same, new⟩
  rw [find?_congr same, hkept] at new
  cases new

/-- After an insertion for a path something is kept for it. -/
theorem find?_insertIfNew_self : (snapshot.insertIfNew path found).find? path =
    some ((snapshot.find? path).getD found) := by
  rw [find?_insertIfNew]
  cases snapshot.find? path <;> simp

/-- After putting in a path, this one is known, and what was known before. -/
theorem find?_insertIfNew_isSome : ((snapshot.insertIfNew path found).find? other).isSome ↔
    path.parts = other.parts ∨ (snapshot.find? other).isSome := by
  rw [find?_insertIfNew]
  by_cases same : path.parts = other.parts
  · rw [find?_congr same]
    cases snapshot.find? other <;> simp [same]
  · simp [same]

/-- A path is counted when it is put in for the first time. -/
theorem size_insertIfNew : (snapshot.insertIfNew path found).size =
    if (snapshot.find? path).isSome then snapshot.size else snapshot.size + 1 := by
  rw [size, insertIfNew, Std.HashMap.size_insertIfNew, size]
  simp only [mem_entries_iff]

end Entries

/-! ### Calls and schedules -/

/-- How far a call has come. -/
inductive Stage where
  /-- The path has not been looked up. -/
  | asked
  /-- Nothing was kept for the path. -/
  | missed
  /-- The disk has been read. -/
  | loaded (found : Option String)
  /-- The call is over. -/
  | answered (text? : Option String)
  deriving DecidableEq

/-- The text that a call has answered with. -/
def Stage.text? : Stage → Option String
  | .answered text? => text?
  | _ => none

/-- Whether a call is over. -/
def Stage.isAnswered : Stage → Bool
  | .answered _ => true
  | _ => false

/-- A disk, a snapshot of it, and calls that use the snapshot. -/
structure Shared (ι : Type) where
  disk : FileSystem.Disk
  snapshot : Snapshot := {}
  stage : ι → Stage := fun _ => .asked
  /-- The paths for which something was put in, in the order of the insertions. -/
  inserted : List Path := []

/-- What can happen: the disk becomes another one, or a call does its next step. -/
inductive Event (ι : Type) where
  | change (disk : FileSystem.Disk)
  | advance (call : ι)

namespace Shared

variable {ι : Type} [DecidableEq ι]

/-- Note how far a call has come. -/
def setStage (shared : Shared ι) (call : ι) (stage : Stage) : Shared ι :=
  { shared with stage := Function.update shared.stage call stage }

/-- Put in what a call found, unless something is kept already, and answer with what is kept then. -/
def keep (shared : Shared ι) (call : ι) (path : Path) (found : Option String) : Shared ι :=
  let snapshot := shared.snapshot.insertIfNew path found
  { shared with
    snapshot
    stage := Function.update shared.stage call (.answered ((snapshot.find? path).getD found))
    inserted := shared.inserted ++ [path] }

/-- The next step of a call for a path. -/
def advance (shared : Shared ι) (call : ι) (path : Path) : Shared ι :=
  match shared.stage call with
  | .asked =>
    match shared.snapshot.find? path with
    | some kept => shared.setStage call (.answered kept)
    | none => shared.setStage call .missed
  | .missed => shared.setStage call (.loaded (onDisk shared.disk path))
  | .loaded found => shared.keep call path found
  | .answered _ => shared

/-- What happens at an event. -/
def next (pathOf : ι → Path) (shared : Shared ι) : Event ι → Shared ι
  | .change disk => { shared with disk }
  | .advance call => shared.advance call (pathOf call)

/-- What happens in a schedule. -/
def run (pathOf : ι → Path) (shared : Shared ι) (schedule : List (Event ι)) : Shared ι :=
  schedule.foldl (next pathOf) shared

/-- What some calls have answered, each of them for one file of a list. -/
def answers (shared : Shared ι) (files : List SourceFile) (callOf : Fin files.length → ι) : Answers :=
  List.ofFn fun k => (files[k], (shared.stage (callOf k)).text?)

@[simp] theorem setStage_snapshot (shared : Shared ι) (call : ι) (stage : Stage) :
    (shared.setStage call stage).snapshot = shared.snapshot := rfl

@[simp] theorem setStage_inserted (shared : Shared ι) (call : ι) (stage : Stage) :
    (shared.setStage call stage).inserted = shared.inserted := rfl

/-! ### What a step preserves -/

/-- Calls that are over were answered with what the snapshot holds, and the snapshot holds an entry for
each path that was put in, and no other. -/
structure Consistent (pathOf : ι → Path) (shared : Shared ι) : Prop where
  find?_of_answered : ∀ call text?, shared.stage call = .answered text? →
    shared.snapshot.find? (pathOf call) = some text?
  find?_isSome_iff : ∀ path, (shared.snapshot.find? path).isSome ↔
    path.parts ∈ shared.inserted.map Path.parts
  size_eq : shared.snapshot.size = (shared.inserted.map Path.parts).toFinset.card

omit [DecidableEq ι] in
/-- In the beginning, nothing was answered and nothing is known. -/
theorem consistent_start (pathOf : ι → Path) (disk : FileSystem.Disk) :
    Consistent pathOf { disk } where
  find?_of_answered _ _ given := by cases given
  find?_isSome_iff path := by simp
  size_eq := by simp

section Steps

variable {pathOf : ι → Path} {shared : Shared ι}

/-- A step leaves the entries of the snapshot as they are. -/
theorem find?_next (event : Event ι) {path : Path} {kept : Option String}
    (hkept : shared.snapshot.find? path = some kept) :
    (shared.next pathOf event).snapshot.find? path = some kept := by
  cases event with
  | change disk => exact hkept
  | advance call =>
    simp only [next, advance]
    cases shared.stage call with
    | asked => cases shared.snapshot.find? (pathOf call) <;> exact hkept
    | missed => exact hkept
    | loaded found => exact find?_insertIfNew_of_some hkept
    | answered text? => exact hkept

/-- A call may be answered with what the snapshot holds, and it may come to a stage without an answer. -/
theorem Consistent.setStage (consistent : Consistent pathOf shared) {call : ι} {stage : Stage}
    (hstage : ∀ text?, stage = .answered text? → shared.snapshot.find? (pathOf call) = some text?) :
    Consistent pathOf (shared.setStage call stage) where
  find?_of_answered other text? given := by
    by_cases same : other = call
    · subst same
      exact hstage text? (by simpa [Shared.setStage] using given)
    · exact consistent.find?_of_answered other text? (by simpa [Shared.setStage, same] using given)
  find?_isSome_iff := consistent.find?_isSome_iff
  size_eq := consistent.size_eq

/-- A call may put in what it found. -/
theorem Consistent.keep (consistent : Consistent pathOf shared) (call : ι) (found : Option String) :
    Consistent pathOf (shared.keep call (pathOf call) found) where
  find?_of_answered other text? given := by
    by_cases same : other = call
    · subst same
      simp only [Shared.keep, Function.update_self, Stage.answered.injEq] at given
      subst given
      simp only [Shared.keep, find?_insertIfNew_self, Option.getD_some]
    · have given' : shared.stage other = .answered text? := by simpa [Shared.keep, same] using given
      exact find?_insertIfNew_of_some (consistent.find?_of_answered other text? given')
  find?_isSome_iff path := by
    simp only [Shared.keep, List.map_append, List.mem_append, List.map_cons, List.map_nil,
      List.mem_singleton]
    rw [find?_insertIfNew_isSome, consistent.find?_isSome_iff, or_comm, eq_comm]
  size_eq := by
    simp only [Shared.keep, List.map_append, List.toFinset_append, List.map_cons, List.map_nil,
      List.toFinset_cons, List.toFinset_nil, insert_empty_eq, Finset.union_singleton]
    rw [size_insertIfNew, consistent.size_eq]
    by_cases known : (pathOf call).parts ∈ shared.inserted.map Path.parts
    · rw [if_pos ((consistent.find?_isSome_iff _).2 known),
        Finset.insert_eq_of_mem (List.mem_toFinset.2 known)]
    · rw [if_neg (fun held => known ((consistent.find?_isSome_iff _).1 held)),
        Finset.card_insert_of_notMem (fun mem => known (List.mem_toFinset.1 mem))]

/-- Every step keeps the snapshot consistent. -/
theorem Consistent.next (consistent : Consistent pathOf shared) (event : Event ι) :
    Consistent pathOf (shared.next pathOf event) := by
  cases event with
  | change disk =>
    exact ⟨consistent.find?_of_answered, consistent.find?_isSome_iff, consistent.size_eq⟩
  | advance call =>
    simp only [Shared.next, advance]
    cases shared.stage call with
    | asked =>
      cases hkept : shared.snapshot.find? (pathOf call) with
      | none => exact consistent.setStage (fun text? given => by cases given)
      | some kept =>
        refine consistent.setStage (fun text? given => ?_)
        cases given
        exact hkept
    | missed => exact consistent.setStage (fun text? given => by cases given)
    | loaded found => exact consistent.keep call found
    | answered text? => exact consistent

/-! ### What a schedule preserves -/

theorem run_append (schedule later : List (Event ι)) :
    shared.run pathOf (schedule ++ later) = (shared.run pathOf schedule).run pathOf later :=
  List.foldl_append

/-- No schedule changes an entry of the snapshot. -/
theorem find?_run (schedule : List (Event ι)) {path : Path} {kept : Option String}
    (hkept : shared.snapshot.find? path = some kept) :
    (shared.run pathOf schedule).snapshot.find? path = some kept := by
  induction schedule generalizing shared with
  | nil => exact hkept
  | cons event schedule ih => exact ih (find?_next event hkept)

/-- Every schedule keeps the snapshot consistent. -/
theorem Consistent.run (consistent : Consistent pathOf shared) (schedule : List (Event ι)) :
    Consistent pathOf (shared.run pathOf schedule) := by
  induction schedule generalizing shared with
  | nil => exact consistent
  | cons event schedule ih => exact ih (consistent.next event)

/-! ### Calls one after the other -/

/-- A call that is not interrupted is a reading of the snapshot. -/
theorem run_replicate_advance {call : ι} (asked : shared.stage call = .asked) :
    let alone := shared.run pathOf (List.replicate 3 (.advance call))
    let reading := shared.snapshot.read shared.disk (pathOf call)
    alone.stage call = .answered reading.1 ∧ alone.snapshot = reading.2 := by
  have hrun : shared.run pathOf (List.replicate 3 (.advance call)) =
      ((shared.advance call (pathOf call)).advance call (pathOf call)).advance call (pathOf call) := rfl
  rw [hrun]
  cases hkept : shared.snapshot.find? (pathOf call) with
  | none =>
    simp [advance, asked, hkept, setStage, keep, read, find?_insertIfNew_self]
  | some kept =>
    simp [advance, asked, hkept, setStage, read]

/-- A step of a call concerns neither the disk nor the other calls. -/
theorem advance_frame (shared : Shared ι) (call : ι) (path : Path) :
    (shared.advance call path).disk = shared.disk ∧
      ∀ other ≠ call, (shared.advance call path).stage other = shared.stage other := by
  unfold advance
  cases shared.stage call with
  | asked => cases shared.snapshot.find? path <;> simp +contextual [setStage]
  | missed => simp +contextual [setStage]
  | loaded found => simp +contextual [keep]
  | answered text? => exact ⟨rfl, fun other _ => rfl⟩

/-- Steps of one call leave the disk and the other calls alone. -/
theorem run_replicate_advance_frame (pathOf : ι → Path) (shared : Shared ι) (call : ι) (n : Nat) :
    (shared.run pathOf (List.replicate n (.advance call))).disk = shared.disk ∧
      ∀ other ≠ call,
        (shared.run pathOf (List.replicate n (.advance call))).stage other = shared.stage other := by
  induction n generalizing shared with
  | zero => exact ⟨rfl, fun other _ => rfl⟩
  | succ n ih =>
    obtain ⟨hdisk, hstage⟩ := advance_frame shared call (pathOf call)
    obtain ⟨hdisk', hstage'⟩ := ih (shared.advance call (pathOf call))
    exact ⟨hdisk'.trans hdisk, fun other hne => (hstage' other hne).trans (hstage other hne)⟩

/-- Calls that follow one another read the snapshot one after the other. -/
theorem snapshot_run_flatMap {calls : List ι} (different : calls.Nodup)
    (asked : ∀ call ∈ calls, shared.stage call = .asked) :
    (shared.run pathOf (calls.flatMap fun call => List.replicate 3 (.advance call))).snapshot =
      calls.foldl (fun snapshot call => (snapshot.read shared.disk (pathOf call)).2)
        shared.snapshot := by
  induction calls generalizing shared with
  | nil => rfl
  | cons call calls ih =>
    obtain ⟨hnew, hrest⟩ := List.nodup_cons.1 different
    obtain ⟨hdisk, hstage⟩ := run_replicate_advance_frame pathOf shared call 3
    have hasked : ∀ other ∈ calls,
        (shared.run pathOf (List.replicate 3 (.advance call))).stage other = .asked := by
      intro other hother
      rw [hstage other (fun same => hnew (same ▸ hother))]
      exact asked other (List.mem_cons_of_mem call hother)
    rw [List.flatMap_cons, run_append, ih hrest hasked, hdisk, List.foldl_cons,
      (run_replicate_advance (asked call List.mem_cons_self)).2]

end Steps

end Shared

/-- The snapshot of some files is what remains when they are read one after the other. -/
theorem ofFiles_eq_run (disk : FileSystem.Disk) (files : List SourceFile) :
    ofFiles disk files =
      (Shared.run (fun k : Fin files.length => files[k].path) { disk }
        ((List.finRange files.length).flatMap fun k => List.replicate 3 (.advance k))).snapshot := by
  rw [Shared.snapshot_run_flatMap (List.nodup_finRange _) (fun _ _ => rfl), ofFiles]
  conv_lhs => rw [← List.map_getElem_finRange files, List.foldl_map]
  rfl

/-! ### Three tables from one snapshot -/

/-- The tables that are made at the same time. -/
inductive Reader where
  | languages
  | files
  | markers
  deriving DecidableEq

/-- When all calls for some files are over, their answers are what the snapshot holds. -/
theorem Shared.Consistent.answers_eq {ι : Type} {pathOf : ι → Path} {shared : Shared ι}
    (consistent : Shared.Consistent pathOf shared) {files : List SourceFile}
    {callOf : Fin files.length → ι} (hpath : ∀ k, pathOf (callOf k) = files[k].path)
    (given : ∀ k, (shared.stage (callOf k)).isAnswered) :
    shared.answers files callOf = CodeCensus.answers shared.snapshot.contents files := by
  rw [CodeCensus.answers, ← List.ofFn_getElem_eq_map, Shared.answers]
  congr 1
  funext k
  have hgiven := given k
  cases hstage : shared.stage (callOf k) with
  | answered text? =>
    have hkept := consistent.find?_of_answered (callOf k) text? hstage
    rw [hpath k] at hkept
    have hcontents : shared.snapshot.contents files[k].path = text? := by
      rw [contents, hkept, Option.join_some]
    exact congrArg (files[k], ·) hcontents.symm
  | _ => simp [hstage, Stage.isAnswered] at hgiven

open Census (LanguageTable FileTable MarkerTable) in
/-- However the steps of calls and the changes of the disk follow one another: an entry of the snapshot
never changes, the calls for one path have one answer, the size of the snapshot is the number of
different paths that were put in, and three tables that are made at the same time are the tables of one
and the same contents.  Calls that follow one another without interruption give the snapshot of the files
that they are for. -/
theorem shared_snapshot_consistent {ι : Type} [DecidableEq ι] (pathOf : ι → Path)
    (disk : FileSystem.Disk) (schedule later : List (Event ι)) :
    let shared := Shared.run pathOf { disk } schedule
    let after := shared.run pathOf later
    (∀ path kept, shared.snapshot.find? path = some kept → after.snapshot.find? path = some kept) ∧
      (∀ call other text? other?, (pathOf call).parts = (pathOf other).parts →
        shared.stage call = .answered text? → after.stage other = .answered other? →
          text? = other?) ∧
      shared.snapshot.size = (shared.inserted.map Path.parts).toFinset.card ∧
      (∀ files : List SourceFile, ofFiles disk files =
        (Shared.run (fun k : Fin files.length => files[k].path) { disk }
          ((List.finRange files.length).flatMap fun k => List.replicate 3 (.advance k))).snapshot) ∧
      ∀ (files : List SourceFile) (callOf : Reader → Fin files.length → ι) (top markerTop : Nat),
        (∀ reader k, pathOf (callOf reader k) = files[k].path) →
        (∀ reader k, (shared.stage (callOf reader k)).isAnswered) →
        ∃ contents : Contents,
          (∀ path other, path.parts = other.parts → contents path = contents other) ∧
          LanguageTable.ofAnswers (shared.answers files (callOf .languages)) =
            .ofFiles contents files ∧
          FileTable.ofAnswers (shared.answers files (callOf .files)) top =
            .ofFiles contents files top ∧
          MarkerTable.ofAnswers (shared.answers files (callOf .markers)) markerTop =
            .ofFiles contents files markerTop := by
  intro shared after
  have consistent : Shared.Consistent pathOf shared :=
    (Shared.consistent_start pathOf disk).run schedule
  have consistentAfter : Shared.Consistent pathOf after := consistent.run later
  refine ⟨fun path kept => Shared.find?_run later, ?_, consistent.size_eq, ofFiles_eq_run disk, ?_⟩
  · -- An entry that answered the first call is still there when the second one is answered.
    intro call other text? other? same given givenLater
    have hcall : after.snapshot.find? (pathOf call) = some text? :=
      Shared.find?_run later (consistent.find?_of_answered call text? given)
    have hother := consistentAfter.find?_of_answered other other? givenLater
    rw [← find?_congr same, hcall] at hother
    exact Option.some.inj hother
  · -- The contents of all three tables are those that the snapshot has at this moment.
    intro files callOf top markerTop hpath given
    refine ⟨shared.snapshot.contents, fun path other => contents_congr, ?_, ?_, ?_⟩
    · rw [consistent.answers_eq (hpath .languages) (given .languages), LanguageTable.ofFiles]
    · rw [consistent.answers_eq (hpath .files) (given .files), FileTable.ofFiles]
    · rw [consistent.answers_eq (hpath .markers) (given .markers), MarkerTable.ofFiles]

/-- A disk with one short file. -/
def noteDisk (body : List UInt8) : FileSystem.Disk where
  root := .file [0x61] ⟨body.toArray⟩ .empty
  working := []

/-- The file on this disk. -/
def note : SourceFile :=
  { path := ⟨[0x61]⟩, relativePath := "a", extension := "", label := "Other", size := 1 }

/-- Two calls miss the file.  The first one reads the disk before a change and the second one after it,
and the second one is faster. -/
def race : List (Event Reader) :=
  [.advance .languages, .advance .files, .advance .languages, .change (noteDisk [0x79]),
    .advance .files, .advance .files, .advance .languages, .change (noteDisk []), .advance .markers]

/-- Both calls of the sample are answered, with what the first of them found. -/
theorem stage_race (reader : Reader) :
    (Shared.run (fun _ : Reader => note.path) { disk := noteDisk [0x78] } race).stage reader =
      .answered (some "y") := by
  have hfound : onDisk (noteDisk [0x79]) note.path = some "y" := by cbv
  cases reader <;>
    simp [race, Shared.run, Shared.next, Shared.advance, Shared.setStage, Shared.keep,
      find?_insertIfNew_self, hfound]

/-- Both calls put in what they have found. -/
theorem inserted_race :
    (Shared.run (fun _ : Reader => note.path) { disk := noteDisk [0x78] } race).inserted =
      [note.path, note.path] := by
  simp [race, Shared.run, Shared.next, Shared.advance, Shared.setStage, Shared.keep,
    find?_insertIfNew_self]

open Census (LanguageTable FileTable MarkerTable) in
/-- In the race all calls answer with what the faster one has found. -/
theorem shared_snapshot_consistent_race :
    let shared := Shared.run (fun _ : Reader => note.path) { disk := noteDisk [0x78] } race
    let after := shared.run (fun _ => note.path) [.change (noteDisk [0x7A]), .advance .files]
    (∀ reader, shared.stage reader = .answered (some "y")) ∧
      after.snapshot.find? note.path = some (some "y") ∧
      (∀ text?, after.stage .files = .answered text? → some "y" = text?) ∧
      shared.snapshot.size = 1 ∧
      ∃ contents : Contents,
        LanguageTable.ofAnswers (shared.answers [note] fun _ => .languages) =
          .ofFiles contents [note] ∧
        FileTable.ofAnswers (shared.answers [note] fun _ => .files) 0 =
          .ofFiles contents [note] 0 ∧
        MarkerTable.ofAnswers (shared.answers [note] fun _ => .markers) 0 =
          .ofFiles contents [note] 0 := by
  intro shared after
  obtain ⟨stays, agree, size, -, tables⟩ := shared_snapshot_consistent (fun _ : Reader => note.path)
    (noteDisk [0x78]) race [.change (noteDisk [0x7A]), .advance .files]
  have hkept : shared.snapshot.find? note.path = some (some "y") :=
    ((Shared.consistent_start _ _).run race).find?_of_answered .files _ (stage_race .files)
  obtain ⟨contents, -, hlanguages, hfiles, hmarkers⟩ := tables [note] (fun reader _ => reader) 0 0
    (fun _ k => by rw [Fin.fin_one_eq_zero k]; rfl)
    (fun reader _ => by rw [stage_race reader]; rfl)
  refine ⟨stage_race, stays note.path (some "y") hkept, ?_, ?_,
    contents, hlanguages, hfiles, hmarkers⟩
  · exact fun text? given => agree .languages .files (some "y") text? rfl (stage_race .languages) given
  · rw [size, inserted_race]
    simp

end CodeCensus.Snapshot
