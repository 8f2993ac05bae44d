import CodeCensus.History.Changes
import CodeCensus.Proofs.Dictionary
import CodeCensus.Proofs.Sorting
import Mathlib.Data.List.Lex
import Mathlib.Data.List.Nodup
import Mathlib.Data.List.Perm.Basic
import Mathlib.Data.Set.Card
import Mathlib.Order.Defs.LinearOrder

/-!
# What differs between the files of two commits

There is a difference at exactly those paths where the two collections of files differ
(`mem_map_path_deltas`), and none of these paths has two.

Among the differences, files that are gone are matched with files that are new.  Pairs are taken one after
the other, and a pair may take the place of others; what every such step keeps is that no file is in two
pairs (`IsMatching.take`).  So it holds of the pairs in the end (`isMatching_renames`), and each of them
makes one difference of two: the old path is left out, the new one stays (`mem_changedPaths_iff`,
`length_deltas_eq`).
-/

namespace CodeCensus.History

variable {limit : Nat} {old new : Files} {path : List UInt8} {blob : Blob}

/-! ### Files at paths -/

namespace Files

/-- No path has two files. -/
def IsProper (files : Files) : Prop :=
  (files.map Prod.fst).Nodup

/-- A path with no file is none of the paths of the files. -/
theorem lookup_eq_none_iff {files : Files} : files.lookup path = none ↔ path ∉ files.map Prod.fst :=
  Dictionary.lookup_eq_none_iff_notMem

/-- What stands at a path of proper files is the file that they have there. -/
theorem lookup_eq_some_iff {files : Files} (proper : files.IsProper) :
    files.lookup path = some blob ↔ (path, blob) ∈ files :=
  Dictionary.lookup_eq_some_iff_mem proper

end Files

/-! ### Differences -/

/-- What a difference says about two collections of files. -/
inductive Difference (old new : Files) : Delta → Prop where
  | deleted {path : List UInt8} {blob : Blob} (was : (path, blob) ∈ old) (gone : new.lookup path = none) :
    Difference old new (.deleted path blob)
  | added {path : List UInt8} {blob : Blob} (now : (path, blob) ∈ new) (fresh : old.lookup path = none) :
    Difference old new (.added path blob)
  | modified {path : List UInt8} {blob other : Blob} (was : (path, blob) ∈ old)
    (now : new.lookup path = some other) (different : other ≠ blob) : Difference old new (.modified path)

/-- The deltas are the differences between the two trees, each of them once. -/
theorem mem_deltas_iff {delta : Delta} : delta ∈ deltas old new ↔ Difference old new delta := by
  rw [deltas, List.mem_mergeSort, List.mem_append, List.mem_filterMap, List.mem_map]
  constructor
  · rintro (⟨⟨path, blob⟩, mem, some⟩ | ⟨⟨path, blob⟩, mem, rfl⟩)
    · rw [deltaOf?] at some
      split at some
      · next gone =>
        cases some
        exact .deleted mem gone
      · next now found =>
        split at some
        · cases some
        · next different =>
          cases some
          exact .modified mem found different
    · obtain ⟨now, fresh⟩ := List.mem_filter.1 mem
      exact .added now (Option.isNone_iff_eq_none.1 fresh)
  · rintro (⟨was, gone⟩ | ⟨now, fresh⟩ | ⟨was, now, different⟩)
    · exact Or.inl ⟨_, was, by simp [deltaOf?, gone]⟩
    · exact Or.inr ⟨_, List.mem_filter.2 ⟨now, by simp [fresh]⟩, rfl⟩
    · exact Or.inl ⟨_, was, by simp [deltaOf?, now, different]⟩

/-- There is a difference at the paths where the files differ. -/
theorem mem_map_path_deltas (proper : old.IsProper) (proper' : new.IsProper) :
    path ∈ (deltas old new).map Delta.path ↔ old.lookup path ≠ new.lookup path := by
  rw [List.mem_map]
  constructor
  · rintro ⟨delta, mem, rfl⟩
    rcases mem_deltas_iff.1 mem with ⟨was, gone⟩ | ⟨now, fresh⟩ | ⟨was, now, different⟩
    · rw [Delta.path, gone, (Files.lookup_eq_some_iff proper).2 was]
      exact Option.some_ne_none _
    · rw [Delta.path, fresh, (Files.lookup_eq_some_iff proper').2 now]
      exact (Option.some_ne_none _).symm
    · rw [Delta.path, now, (Files.lookup_eq_some_iff proper).2 was]
      exact fun same => different (Option.some.inj same).symm
  · intro differ
    cases hold : old.lookup path with
    | none =>
      cases hnew : new.lookup path with
      | none => exact absurd (hold.trans hnew.symm) differ
      | some blob =>
        exact ⟨_, mem_deltas_iff.2 (.added ((Files.lookup_eq_some_iff proper').1 hnew) hold), rfl⟩
    | some blob =>
      have was := (Files.lookup_eq_some_iff proper).1 hold
      cases hnew : new.lookup path with
      | none => exact ⟨_, mem_deltas_iff.2 (.deleted was hnew), rfl⟩
      | some other =>
        refine ⟨_, mem_deltas_iff.2 (.modified was hnew fun same => differ ?_), rfl⟩
        rw [hold, hnew, same]

/-- A delta is about the path of its file. -/
theorem deltaOf?_path {file : List UInt8 × Blob} {delta : Delta} (some : deltaOf? new file = some delta) :
    delta.path = file.1 := by
  obtain ⟨path, blob⟩ := file
  rw [deltaOf?] at some
  split at some
  · cases some
    rfl
  · split at some
    · cases some
    · cases some
      rfl

/-- No path has two differences. -/
theorem nodup_map_path_deltas (proper : old.IsProper) (proper' : new.IsProper) :
    ((deltas old new).map Delta.path).Nodup := by
  rw [deltas, ((List.mergeSort_perm _ _).map _).nodup_iff, List.map_append, List.nodup_append]
  refine ⟨?_, ?_, ?_⟩
  · rw [List.Nodup, List.pairwise_map, List.pairwise_filterMap]
    rw [Files.IsProper, List.Nodup, List.pairwise_map] at proper
    refine proper.imp fun different first hfirst second hsecond => ?_
    rwa [deltaOf?_path hfirst, deltaOf?_path hsecond]
  · rw [List.map_map]
    exact proper'.sublist (List.filter_sublist.map _)
  · -- What differs at an old path is not at a path that is only new.
    rintro path hold other hother rfl
    obtain ⟨delta, hdelta, rfl⟩ := List.mem_map.1 hold
    obtain ⟨file, hfile, some⟩ := List.mem_filterMap.1 hdelta
    obtain ⟨added, hadded, same⟩ := List.mem_map.1 hother
    obtain ⟨entry, hentry, rfl⟩ := List.mem_map.1 hadded
    have hnone := Option.isNone_iff_eq_none.1 (List.mem_filter.1 hentry).2
    rw [Delta.path, deltaOf?_path some] at same
    rw [same] at hnone
    exact Files.lookup_eq_none_iff.1 hnone (List.mem_map_of_mem hfile)

/-- The differences are in the order of their paths. -/
theorem pairwise_deltas (proper : old.IsProper) (proper' : new.IsProper) :
    (deltas old new).Pairwise fun a b => a.path < b.path := by
  have hsorted : (deltas old new).Pairwise fun a b => a.path ≤ b.path :=
    Sorting.pairwise_mergeSort_decide (fun a b : Delta => a.path ≤ b.path) (fun _ _ _ => List.le_trans)
      (fun a b => List.le_total a.path b.path) _
  have hdifferent := nodup_map_path_deltas proper proper'
  rw [List.Nodup, List.pairwise_map] at hdifferent
  refine (hsorted.and hdifferent).imp ?_
  rintro a b ⟨hle, hne⟩
  exact Std.lt_of_le_of_ne hle hne

/-! ### Matching files -/

/-- Pairs that are fit to be taken, and of which no two have a file in common. -/
structure IsMatching (fits : Rename → Prop) (pairs : List Rename) : Prop where
  fits : ∀ pair ∈ pairs, fits pair
  apart : pairs.Pairwise fun a b => a.source ≠ b.source ∧ a.target ≠ b.target

namespace IsMatching

variable {fits : Rename → Prop} {taken pairs : List Rename}

theorem nil : IsMatching fits [] :=
  ⟨List.forall_mem_nil _, .nil⟩

/-- Some pairs of a matching are a matching. -/
theorem filter (matching : IsMatching fits taken) (keeps : Rename → Bool) :
    IsMatching fits (taken.filter keeps) :=
  ⟨fun pair mem => matching.fits pair (List.mem_of_mem_filter mem), matching.apart.filter keeps⟩

/-- A pair that is taken takes the place of all pairs that it meets. -/
theorem take (matching : IsMatching fits taken) {pair : Rename} (fit : fits pair) (bumped : Bool) :
    IsMatching fits (History.take (taken, bumped) pair).1 := by
  unfold History.take
  dsimp only
  split
  · have hkept := matching.filter (!·.meets pair)
    refine ⟨fun other mem => ?_, List.pairwise_append.2 ⟨hkept.apart, List.pairwise_singleton _ _, ?_⟩⟩
    · rcases List.mem_append.1 mem with kept | last
      · exact hkept.fits other kept
      · rwa [List.mem_singleton.1 last]
    · intro other kept last mem
      rw [List.mem_singleton.1 mem]
      simpa [Rename.meets] using (List.mem_filter.1 kept).2
  · exact matching

/-- The same holds when one pair is looked at after the other. -/
theorem foldl_take (matching : IsMatching fits taken) (fit : ∀ pair ∈ pairs, fits pair) (bumped : Bool) :
    IsMatching fits (pairs.foldl History.take (taken, bumped)).1 := by
  induction pairs generalizing taken bumped with
  | nil => exact matching
  | cons pair pairs ih =>
    obtain ⟨first, rest⟩ := List.forall_mem_cons.1 fit
    exact ih (matching.take first bumped) rest _

/-- Settling pairs round by round keeps a matching, whatever the rounds: a pair is only taken while both of
its files are free. -/
theorem settle (matching : IsMatching fits taken) (fit : ∀ pair ∈ pairs, fits pair) (rounds : Nat) :
    IsMatching fits (History.settle pairs rounds taken) := by
  induction rounds generalizing taken with
  | zero => exact matching
  | succ rounds ih =>
    have hround := matching.foldl_take fit false
    rw [History.settle]
    split
    · next after round =>
      rw [round] at hround
      exact ih hround
    · next after round =>
      rwa [round] at hround

end IsMatching

/-- A file that is gone and one that is new. -/
def IsMove (old new : Files) (pair : Rename) : Prop :=
  (∃ blob, (pair.source, blob) ∈ old) ∧ new.lookup pair.source = none ∧
    (∃ blob, (pair.target, blob) ∈ new) ∧ old.lookup pair.target = none

/-- A file that is gone has its own delta. -/
theorem Delta.eq_of_deleted? {delta : Delta} {file : List UInt8 × Blob} (some : delta.deleted? = some file) :
    delta = .deleted file.1 file.2 := by
  cases delta <;> cases some
  rfl

/-- A file that is new has its own delta. -/
theorem Delta.eq_of_added? {delta : Delta} {file : List UInt8 × Blob} (some : delta.added? = some file) :
    delta = .added file.1 file.2 := by
  cases delta <;> cases some
  rfl

/-- A candidate is a move from a file that is gone to a new one, whichever candidates the limit leaves out.
-/
theorem isMove_of_mem_candidates {pair : Rename} (mem : pair ∈ candidates limit (deltas old new)) :
    IsMove old new pair := by
  unfold candidates at mem
  dsimp only at mem
  split at mem
  · cases mem
  · obtain ⟨target, htarget, mem⟩ := List.mem_flatMap.1 mem
    have compared := List.mem_of_mem_take (List.mem_of_mem_filter mem)
    obtain ⟨sketch, hsketch, some⟩ := List.mem_filterMap.1 compared
    obtain ⟨source, hsource, rfl⟩ := List.mem_map.1 hsketch
    obtain ⟨gone, hgone, hdeleted⟩ := List.mem_filterMap.1 hsource
    obtain ⟨fresh, hfresh, hadded⟩ := List.mem_filterMap.1 htarget
    rw [Delta.eq_of_deleted? hdeleted, mem_deltas_iff] at hgone
    rw [Delta.eq_of_added? hadded, mem_deltas_iff] at hfresh
    obtain ⟨percent, -, rfl⟩ := Option.map_eq_some_iff.1 some
    cases hgone with
    | deleted was gone =>
      cases hfresh with
      | added now fresh => exact ⟨⟨_, was⟩, gone, ⟨_, now⟩, fresh⟩

/-- No file is in two of the pairs that are taken for one file with another name. -/
theorem isMatching_renames (limit : Nat) (old new : Files) : IsMatching (IsMove old new) (renames limit (deltas old new)) :=
  (IsMatching.nil.settle (fun _ mem => isMove_of_mem_candidates mem) maxRounds).filter _

/-! ### Changed paths -/

/-- A path is changed if the files at it differ, unless the file that was there got another name. -/
def IsChanged (limit : Nat) (old new : Files) (path : List UInt8) : Prop :=
  old.lookup path ≠ new.lookup path ∧ path ∉ (renames limit (deltas old new)).map Rename.source

/-- The old paths of renamed files are paths of files that are gone. -/
theorem isSome_deleted?_of_source {delta : Delta} (mem : delta ∈ deltas old new)
    (source : delta.path ∈ (renames limit (deltas old new)).map Rename.source) : delta.deleted?.isSome := by
  obtain ⟨pair, hpair, same⟩ := List.mem_map.1 source
  obtain ⟨⟨blob, was⟩, gone, -, -⟩ := (isMatching_renames limit old new).fits pair hpair
  rw [same] at was gone
  rcases mem_deltas_iff.1 mem with ⟨-, -⟩ | ⟨now, -⟩ | ⟨-, now, -⟩
  · rfl
  · exact absurd (List.mem_map_of_mem now) (Files.lookup_eq_none_iff.1 gone)
  · rw [Delta.path, now] at gone
    cases gone

/-- The changed paths are those of the deltas, without the sources of renames. -/
theorem changedPaths_eq (limit : Nat) (old new : Files) : changedPaths limit old new =
    ((deltas old new).map Delta.path).filter fun path =>
      !((renames limit (deltas old new)).map Rename.source).contains path := by
  unfold changedPaths
  dsimp only
  rw [List.filter_map]
  congr 1
  refine List.filter_congr fun delta mem => ?_
  rw [Function.comp_apply]
  by_cases source : delta.path ∈ (renames limit (deltas old new)).map Rename.source
  · have hdeleted := isSome_deleted?_of_source mem source
    simp [hdeleted, source]
  · simp [source]

/-- The changed paths are those at which something differs, without the old paths of renamed files. -/
theorem mem_changedPaths_iff (proper : old.IsProper) (proper' : new.IsProper) :
    path ∈ changedPaths limit old new ↔ IsChanged limit old new path := by
  rw [changedPaths_eq, IsChanged, ← mem_map_path_deltas proper proper', List.mem_filter,
    Bool.not_eq_true', ← Bool.not_eq_true, List.contains_iff_mem]

/-- The changed paths are in their order. -/
theorem pairwise_changedPaths (proper : old.IsProper) (proper' : new.IsProper) :
    (changedPaths limit old new).Pairwise (· < ·) := by
  rw [changedPaths_eq]
  exact (List.pairwise_map.2 (pairwise_deltas proper proper')).filter _

/-- Each pair makes one difference of two. -/
theorem length_deltas_eq (proper : old.IsProper) (proper' : new.IsProper) :
    (deltas old new).length = (changedPaths limit old new).length + (renames limit (deltas old new)).length := by
  have hmatching := isMatching_renames limit old new
  have hsources : ((renames limit (deltas old new)).map Rename.source).Nodup := by
    rw [List.Nodup, List.pairwise_map]
    exact hmatching.apart.imp And.left
  have hperm : (((deltas old new).map Delta.path).filter fun path =>
      ((renames limit (deltas old new)).map Rename.source).contains path).Perm
        ((renames limit (deltas old new)).map Rename.source) := by
    refine (List.perm_ext_iff_of_nodup ?_ hsources).2 fun path => ?_
    · exact (nodup_map_path_deltas proper proper').filter _
    rw [List.mem_filter, List.contains_iff_mem, and_iff_right_iff_imp]
    intro source
    obtain ⟨pair, hpair, rfl⟩ := List.mem_map.1 source
    obtain ⟨⟨blob, was⟩, gone, -, -⟩ := hmatching.fits pair hpair
    rw [mem_map_path_deltas proper proper', gone, (Files.lookup_eq_some_iff proper).2 was]
    exact Option.some_ne_none blob
  rw [changedPaths_eq, ← List.length_map (f := Rename.source), ← hperm.length_eq, Nat.add_comm,
    ← List.length_eq_length_filter_add, List.length_map]

end CodeCensus.History
