import CodeCensus.Proofs.History.Changes
import CodeCensus.Proofs.History.Interrupted
import CodeCensus.Proofs.Ranking.Order
import CodeCensus.Proofs.Sorting
import CodeCensus.Proofs.Utf8
import Mathlib

/-!
# How often files change

The changes of a file are commits: those with at most one parent that touch its path (`Repository.churn`).
Whether a commit touches a path is said by the files of the commit and of its parent alone
(`Repository.Touches`).

The table is made of one long list of names instead, those of all changes in the order of the walk.  Since
a commit has a path at most once among its changes, a name stands in this list as often as there are commits
that touch its path (`count_flatMap_names`); so the table is the ranking of the names by their churn
(`churn_exact`).

A name is known from a path, and a path from its name, if paths are texts without backslashes.
-/

namespace CodeCensus.History

open Calendar (Instant)

variable {repository : Repository} {commit : Commit} {path : List UInt8}

/-! ### Names of paths -/

/-- Files whose paths are texts without backslashes, one file at each path. -/
structure Files.IsPlain (files : Files) : Prop where
  proper : files.IsProper
  text : ∀ path ∈ files.map Prod.fst, Text.IsText path
  noBackslash : ∀ path ∈ files.map Prod.fst, 0x5C ∉ path

theorem Files.isPlain_nil : Files.IsPlain [] :=
  ⟨List.nodup_nil, List.forall_mem_nil _, List.forall_mem_nil _⟩

/-- A path that is a text without backslashes is shown as it is. -/
theorem shownPath_toUTF8 {text : String} (noBackslash : 0x5C ∉ text.toUTF8.toList) :
    shownPath text.toUTF8.toList = text := by
  have hchars : ∀ c ∈ text.toList, c ≠ '\\' := by
    rintro c mem rfl
    apply noBackslash
    rw [Text.toList_toUTF8]
    exact List.mem_flatMap.2 ⟨_, mem, List.mem_cons_self⟩
  have hmap : (text.toList.map fun c => if c = '\\' then '/' else c) = text.toList :=
    (List.map_congr_left fun c mem => if_neg (hchars c mem)).trans (List.map_id _)
  rw [shownPath, Text.lossy_toUTF8, hmap, String.ofList_toList]

/-! ### What a commit touches -/

namespace Repository

/-- The files that a commit is compared with: those of its parent, and none if it has no parent. -/
def filesBefore (repository : Repository) (commit : Commit) : Files :=
  ((commit.parents.head?.bind repository.find?).bind Commit.files?).getD []

/-- The files of a commit. -/
def filesAfter (commit : Commit) : Files :=
  commit.files?.getD []

/-- A commit touches a path if it has at most one parent and the path is changed from there. -/
def Touches (repository : Repository) (commit : Commit) (path : List UInt8) : Prop :=
  commit.parents.length ≤ 1 ∧
    IsChanged repository.reading.renameLimit (repository.filesBefore commit) (filesAfter commit) path

/-- Whether the files of every commit of the history are plain. -/
def HoldsPlainFiles (repository : Repository) : Prop :=
  ∀ entry ∈ repository.history, ∀ files, entry.2.files? = some files → files.IsPlain

/-- The names that a commit changes. -/
def names (repository : Repository) (commit : Commit) : List String :=
  ((repository.changes? commit).getD []).map shownPath

/-- A merge has no changed paths. -/
theorem changes?_of_merge (merge : 1 < commit.parents.length) : repository.changes? commit = some [] := by
  rw [changes?, if_pos merge]

/-- Any other commit has the changed paths between its parent and itself, if both can be read. -/
theorem changes?_of_single (single : commit.parents.length ≤ 1)
    (whole : (repository.changes? commit).isSome) :
    repository.changes? commit =
      some (changedPaths repository.reading.renameLimit (repository.filesBefore commit)
        (filesAfter commit)) := by
  unfold changes? filesBefore filesAfter at *
  rw [if_neg (Nat.not_lt_of_le single)] at whole ⊢
  cases hfiles : commit.files? with
  | none =>
    rw [hfiles] at whole
    cases whole
  | some files =>
    rw [hfiles] at whole
    cases hparent : commit.parents.head?.bind repository.find? with
    | none => simp
    | some parent =>
      rw [hparent] at whole
      cases hbefore : parent.files? with
      | none => simp [hbefore] at whole
      | some before => simp [hbefore]

/-- What a commit of the history is compared with is plain. -/
theorem HoldsPlainFiles.filesBefore (plain : repository.HoldsPlainFiles) {id : CommitId}
    (mem : (id, commit) ∈ repository.history) : (repository.filesBefore commit).IsPlain := by
  unfold Repository.filesBefore
  cases hparent : commit.parents.head?.bind repository.find? with
  | none => exact Files.isPlain_nil
  | some parent =>
    obtain ⟨parentId, hhead, hfound⟩ := Option.bind_eq_some_iff.1 hparent
    have hreachable := mem.1.parent mem.2 (List.mem_of_head? hhead)
    rw [Option.bind_some]
    cases hfiles : parent.files? with
    | none => exact Files.isPlain_nil
    | some files => exact plain (parentId, parent) ⟨hreachable, hfound⟩ files hfiles

/-- The files after a commit of such a history are plain. -/
theorem HoldsPlainFiles.filesAfter (plain : repository.HoldsPlainFiles) {id : CommitId}
    (mem : (id, commit) ∈ repository.history) : (filesAfter commit).IsPlain := by
  unfold Repository.filesAfter
  cases hfiles : commit.files? with
  | none => exact Files.isPlain_nil
  | some files => exact plain (id, commit) mem files hfiles

/-- The paths that a commit of the history changes are those that it touches, in their order. -/
theorem exists_changes? (readable : repository.IsReadable) (plain : repository.HoldsPlainFiles)
    {id : CommitId} (mem : (id, commit) ∈ repository.history) :
    ∃ paths, repository.changes? commit = some paths ∧ paths.Pairwise (· < ·) ∧
      (∀ path, path ∈ paths ↔ repository.Touches commit path) ∧
      ∀ path ∈ paths, Text.IsText path ∧ 0x5C ∉ path := by
  rcases Nat.lt_or_ge 1 commit.parents.length with merge | single
  · refine ⟨[], changes?_of_merge merge, .nil, fun path => ?_, List.forall_mem_nil _⟩
    refine iff_of_false List.not_mem_nil ?_
    rintro ⟨single, -⟩
    exact absurd merge (Nat.not_lt_of_le single)
  · obtain ⟨other, found, whole⟩ := readable id mem.1
    cases mem.2.symm.trans found
    have before := plain.filesBefore mem
    have after := plain.filesAfter mem
    refine ⟨_, changes?_of_single single whole, pairwise_changedPaths before.proper after.proper, ?_, ?_⟩
    · intro path
      rw [mem_changedPaths_iff before.proper after.proper, Touches, and_iff_right single]
    · intro path hpath
      rw [mem_changedPaths_iff before.proper after.proper] at hpath
      -- Where neither side has a file nothing differs.
      have hsome : path ∈ (repository.filesBefore commit).map Prod.fst ∨
          path ∈ (Repository.filesAfter commit).map Prod.fst := by
        by_contra none
        rw [not_or, ← Files.lookup_eq_none_iff, ← Files.lookup_eq_none_iff] at none
        exact hpath.1 (none.1.trans none.2.symm)
      rcases hsome with hbefore | hafter
      · exact ⟨before.text path hbefore, before.noBackslash path hbefore⟩
      · exact ⟨after.text path hafter, after.noBackslash path hafter⟩

/-- The names that a commit of the history changes are those of the paths that it touches. -/
theorem names_spec (readable : repository.IsReadable) (plain : repository.HoldsPlainFiles)
    {id : CommitId} (mem : (id, commit) ∈ repository.history) :
    (repository.names commit).Pairwise (· < ·) ∧
      (∀ name, name ∈ repository.names commit ↔ repository.Touches commit name.toUTF8.toList) ∧
      (repository.names commit).length = {path | repository.Touches commit path}.ncard := by
  obtain ⟨paths, hchanges, sorted, hmem, plainPaths⟩ := exists_changes? readable plain mem
  -- Plain paths are shown as they are, so names and paths are told apart alike.
  have hshown : ∀ path ∈ paths, (shownPath path).toUTF8.toList = path := by
    intro path hpath
    obtain ⟨⟨text, rfl⟩, noBackslash⟩ := plainPaths path hpath
    rw [shownPath_toUTF8 noBackslash]
  rw [names, hchanges, Option.getD_some]
  refine ⟨?_, fun name => ?_, ?_⟩
  · rw [List.pairwise_map]
    refine sorted.imp_of_mem fun {a b} ha hb lt => ?_
    rwa [← Text.toList_toUTF8_lt_iff, hshown a ha, hshown b hb]
  · rw [← hmem, List.mem_map]
    constructor
    · rintro ⟨path, hpath, rfl⟩
      rwa [hshown path hpath]
    · intro hpath
      exact ⟨_, hpath, shownPath_toUTF8 (plainPaths _ hpath).2⟩
  · have hset : {path | repository.Touches commit path} = (paths.toFinset : Set (List UInt8)) := by
      ext path
      rw [List.coe_toFinset, Set.mem_ofPred_eq, Set.mem_ofPred_eq, hmem]
    have hnodup : paths.Nodup := sorted.imp fun lt same => by
      subst same
      exact List.lt_irrefl _ lt
    rw [hset, Set.ncard_coe_finset, List.toFinset_card_of_nodup hnodup, List.length_map]

/-! ### Counting names -/

/-- The commits of the history that have at most one parent. -/
def singles (repository : Repository) : Set (CommitId × Commit) :=
  {entry ∈ repository.history | entry.2.parents.length ≤ 1}

/-- The churn of a name is the number of commits of the history that touch its path. -/
noncomputable def churn (repository : Repository) (name : String) : Nat :=
  {entry ∈ repository.history | repository.Touches entry.2 name.toUTF8.toList}.ncard

/-- A name with its churn. -/
noncomputable def churnEntry (repository : Repository) (name : String) : FileChurn :=
  ⟨name, repository.churn name⟩

/-- No path is changed more often than there are commits that are no merges. -/
theorem churn_le_ncard_singles (name : String) : repository.churn name ≤ repository.singles.ncard := by
  refine Set.ncard_le_ncard ?_ (repository.history_finite.subset fun _ mem => mem.1)
  exact fun entry mem => ⟨mem.1, mem.2.1⟩

/-- In the names of all changes, a name stands as often as commits touch its path. -/
theorem count_flatMap_names {commits : List Commit} (readable : repository.IsReadable)
    (plain : repository.HoldsPlainFiles) (visits : repository.Visits commits) (name : String) :
    (commits.flatMap repository.names).count name = repository.churn name := by
  classical
  have hcount : ∀ commit ∈ commits, (repository.names commit).count name =
      if repository.Touches commit name.toUTF8.toList then 1 else 0 := by
    intro commit mem
    obtain ⟨id, hid⟩ := visits.mem_iff.1 mem
    obtain ⟨sorted, hmem, -⟩ := names_spec readable plain hid
    have hnodup : (repository.names commit).Nodup := sorted.imp fun lt => ne_of_lt lt
    simp only [hnodup.count, hmem]
  have hchurn := visits.countP_eq_ncard fun commit => repository.Touches commit name.toUTF8.toList
  simp only [decide_eq_true_eq] at hchurn
  rw [churn, ← hchurn, List.count_flatMap]
  calc (commits.map (List.count name ∘ repository.names)).sum
      = (commits.map fun commit => if repository.Touches commit name.toUTF8.toList then 1 else 0).sum :=
        congrArg List.sum (List.map_congr_left hcount)
    _ = commits.countP fun commit => repository.Touches commit name.toUTF8.toList := by
        rw [List.sum_map_ite, List.countP_eq_length_filter]
        simp

end Repository

/-! ### The table -/

/-- An entry is known from its name, and from the number of changes, which adds up. -/
theorem addsUp_churn : Ranking.AddsUp FileChurn.file id (fun name => (⟨name, 1⟩ : FileChurn))
    (fun _ f => { f with changes := f.changes + 1 }) [FileChurn.changes] where
  keyFresh _ := rfl
  keyChange _ _ := rfl
  additive weight mem name entry _ := by
    obtain rfl : weight = FileChurn.changes := List.mem_singleton.1 mem
    rfl
  determined a b file numbers := by
    have hchanges : a.changes = b.changes := numbers FileChurn.changes (List.mem_singleton.2 rfl)
    cases a
    cases b
    subst file hchanges
    rfl

/-- The commits of the history in the order of the walk; none if there is no head. -/
def Repository.walked (repository : Repository) : List Commit :=
  repository.walk?.getD []

/-- The walk of a history that can be read visits it. -/
theorem Repository.IsReadable.visits_walked (readable : repository.IsReadable) :
    repository.Visits repository.walked := by
  unfold walked
  cases hhead : repository.head? with
  | none =>
    have hwalk : repository.walk? = none := by simp [walk?, hhead]
    rw [hwalk]
    exact ⟨[], List.nodup_nil, by simp [history_eq_empty hhead], .nil⟩
  | some head =>
    obtain ⟨commits, hwalk, -⟩ := (isReadable_iff hhead).1 readable
    rw [hwalk]
    exact walk?_visits hwalk

/-- The walk comes to later commits first. -/
theorem Repository.pairwise_walked (repository : Repository) :
    repository.walked.Pairwise fun a b => b.committer.time ≤ a.committer.time := by
  unfold walked
  cases hwalk : repository.walk? with
  | none => exact .nil
  | some commits => exact pairwise_walk? hwalk

/-- Every order of the history that has the latest commits first is the order of the walk along some
itinerary. -/
theorem Repository.IsReadable.exists_walked_along (readable : repository.IsReadable) {order : List Commit}
    (visits : repository.Visits order)
    (latestFirst : order.Pairwise fun a b => b.committer.time ≤ a.committer.time) :
    ∃ itinerary, (repository.along itinerary).walked = order := by
  unfold walked
  cases hwalk : repository.walk? with
  | none =>
    have hnone : repository.walked = [] := by rw [walked, hwalk, Option.getD_none]
    have hempty : order = [] := by
      refine List.Perm.eq_nil ?_
      rw [← hnone]
      exact visits.perm readable.visits_walked
    refine ⟨repository.reading.itinerary, ?_⟩
    change repository.walk?.getD [] = order
    rw [hwalk, hempty, Option.getD_none]
  | some commits =>
    obtain ⟨itinerary, hitinerary⟩ := exists_walk?_along hwalk visits latestFirst
    exact ⟨itinerary, by rw [hitinerary, Option.getD_some]⟩

/-- The changed paths of all commits, as they are shown, are their names in a row. -/
theorem flatten_filterMap_changes? (commits : List Commit) :
    (commits.filterMap repository.changes?).flatten.map shownPath = commits.flatMap repository.names := by
  induction commits with
  | nil => rfl
  | cons commit rest ih =>
    rw [List.flatMap_cons, ← ih, Repository.names]
    cases hchanges : repository.changes? commit with
    | none => simp [hchanges]
    | some paths => simp [hchanges]

/-- The files of a summary are ranked from the names in the walk. -/
theorem fileChurn_eq (readable : repository.IsReadable) (top : Nat) (now : Instant) :
    (repository.summary top now).fileChurn = Ranking.top top standardTop FileChurn.changes
      (churnOf (repository.walked.flatMap repository.names)) := by
  cases hwalk : repository.walk? with
  | none =>
    have hsummary : (repository.summary top now).fileChurn = [] := by
      unfold Repository.summary
      rw [hwalk]
    have hwalked : repository.walked = [] := by rw [Repository.walked, hwalk, Option.getD_none]
    rw [hsummary, hwalked]
    simp [churnOf, Ranking.gather, Ranking.top, Ranking.descending]
  | some commits =>
    have whole := (Repository.isReadable_iff_of_walk? hwalk).1 readable
    have hwalked : repository.walked = commits := by rw [Repository.walked, hwalk, Option.getD_some]
    rw [summary_of_whole hwalk whole, hwalked, ← flatten_filterMap_changes?]
    rfl

/-- All names together have as many changes as there are names. -/
theorem sum_churnOf (names : List String) : ((churnOf names).map FileChurn.changes).sum = names.length := by
  rw [churnOf, Ranking.sum_gather fun _ _ _ => rfl]
  simp

/-- The table is the ranking of the names by their churn. -/
theorem exists_ranked_churn (readable : repository.IsReadable) (plain : repository.HoldsPlainFiles) :
    ∃ order, Ranking.Ranked repository.churn (repository.walked.flatMap repository.names) order ∧
      Ranking.descending FileChurn.changes (churnOf (repository.walked.flatMap repository.names)) =
        order.map repository.churnEntry := by
  have hranked : ∃ order,
      Ranking.Ranked repository.churn ((repository.walked.flatMap repository.names).map id) order ∧
      Ranking.descending FileChurn.changes (churnOf (repository.walked.flatMap repository.names)) =
        order.map repository.churnEntry := by
    have hkey : ∀ name, (repository.churnEntry name).file = name := fun _ => rfl
    refine addsUp_churn.exists_ranked FileChurn.changes hkey fun weight mem name => ?_
    obtain rfl : weight = FileChurn.changes := List.mem_singleton.1 mem
    have hcount := Repository.count_flatMap_names readable plain readable.visits_walked name
    rw [List.count_eq_countP, List.countP_eq_length_filter] at hcount
    change repository.churn name = _
    rw [← hcount, List.map_const', List.sum_replicate_nat, Nat.mul_one]
    rfl
  rwa [List.map_id] at hranked

/-- Commits with several parents touch nothing. -/
theorem touched_eq_empty (merge : ¬ commit.parents.length ≤ 1) :
    {path | repository.Touches commit path} = ∅ :=
  Set.eq_empty_of_forall_notMem fun _ touches => merge touches.1

/-- All names in the walk are as many as the paths that commits with at most one parent touch. -/
theorem length_flatMap_names (readable : repository.IsReadable) (plain : repository.HoldsPlainFiles) :
    (repository.walked.flatMap repository.names).length =
      ((repository.walked.filter fun commit => commit.parents.length ≤ 1).map fun commit =>
        {path | repository.Touches commit path}.ncard).sum := by
  have hlength : ∀ commit ∈ repository.walked, (repository.names commit).length =
      if commit.parents.length ≤ 1 then {path | repository.Touches commit path}.ncard else 0 := by
    intro commit mem
    obtain ⟨id, hid⟩ := readable.visits_walked.mem_iff.1 mem
    rw [(Repository.names_spec readable plain hid).2.2]
    split
    · rfl
    · next merge => rw [touched_eq_empty merge, Set.ncard_empty]
  rw [List.length_flatMap, List.map_congr_left hlength, List.sum_map_ite]
  simp

/-- **File churn counts distinct commits.**  Let the history be read, and let its files be plain.  The churn
of a name is the number of commits with at most one parent that touch its path, where the old path of a
renamed file counts as untouched.  The table ranks the names by their churn, and among equals by where they
first appear in the walk, with the names of one commit in their order; it has the first ones, ten if no
number is given.  All churn together is the number of differences that the commits with at most one parent
are left with when each renamed file has made one difference of two.

The walk is any order of the history in which no commit comes before a later one, for some way in which the
repository is read. -/
theorem churn_exact {repository : Repository} (readable : repository.IsReadable)
    (plain : repository.HoldsPlainFiles) :
    repository.Visits repository.walked ∧
    repository.walked.Pairwise (fun a b => b.committer.time ≤ a.committer.time) ∧
    (∀ order, repository.Visits order →
      order.Pairwise (fun a b => b.committer.time ≤ a.committer.time) →
      ∃ itinerary, (repository.along itinerary).walked = order) ∧
    (∃ (names : Commit → List String) (order : List String),
      (∀ commit ∈ repository.walked, (names commit).Pairwise (· < ·) ∧
        ∀ name, name ∈ names commit ↔ repository.Touches commit name.toUTF8.toList) ∧
      Ranking.Ranked repository.churn (repository.walked.flatMap names) order ∧
      (∀ name, name ∈ order ↔ 1 ≤ repository.churn name) ∧
      (order.map repository.churn).sum =
        ((repository.walked.filter fun commit => commit.parents.length ≤ 1).map fun commit =>
          {path | repository.Touches commit path}.ncard).sum ∧
      ∀ top now, (repository.summary top now).fileChurn =
        (order.take (min (if top = 0 then 10 else top) order.length)).map repository.churnEntry) ∧
    (∀ top now, ∀ entry ∈ (repository.summary top now).fileChurn,
      1 ≤ entry.changes ∧ entry.changes ≤ repository.singles.ncard) ∧
    ∀ commit ∈ repository.walked, commit.parents.length ≤ 1 →
      let before := repository.filesBefore commit
      let after := Repository.filesAfter commit
      let pairs := renames repository.reading.renameLimit (deltas before after)
      IsMatching (IsMove before after) pairs ∧
      (deltas before after).length =
        {path | repository.Touches commit path}.ncard + pairs.length := by
  have visits := readable.visits_walked
  have hnames : ∀ commit ∈ repository.walked, ∃ id, (id, commit) ∈ repository.history :=
    fun commit mem => visits.mem_iff.1 mem
  obtain ⟨order, ranked, htable⟩ := exists_ranked_churn readable plain
  have hmem : ∀ name, name ∈ order ↔ 1 ≤ repository.churn name := by
    intro name
    rw [ranked.mem_iff, ← Repository.count_flatMap_names readable plain visits name]
    exact List.one_le_count_iff.symm
  have hchurn : ∀ top now, (repository.summary top now).fileChurn =
      (order.take (min (if top = 0 then 10 else top) order.length)).map repository.churnEntry := by
    intro top now
    rw [fileChurn_eq readable]
    exact Ranking.top_eq_map_take htable top
  refine ⟨visits, repository.pairwise_walked, fun _ => readable.exists_walked_along,
    ⟨repository.names, order, ?_, ranked, hmem, ?_, hchurn⟩, ?_, ?_⟩
  · intro commit mem
    obtain ⟨id, hid⟩ := hnames commit mem
    obtain ⟨sorted, hname, -⟩ := Repository.names_spec readable plain hid
    exact ⟨sorted, hname⟩
  · -- The sum is that of the whole table, where the order does not matter.
    have hsum : (order.map repository.churn).sum =
        ((order.map repository.churnEntry).map FileChurn.changes).sum := by
      rw [List.map_map]
      rfl
    rw [hsum, ← htable, ((Ranking.descending_perm _ _).map _).sum_eq, sum_churnOf,
      length_flatMap_names readable plain]
  · intro top now entry mem
    rw [hchurn] at mem
    obtain ⟨name, hname, rfl⟩ := List.mem_map.1 mem
    exact ⟨(hmem name).1 (List.mem_of_mem_take hname), Repository.churn_le_ncard_singles name⟩
  · intro commit mem single before after pairs
    obtain ⟨id, hid⟩ := hnames commit mem
    have hbefore := (plain.filesBefore hid).proper
    have hafter := (plain.filesAfter hid).proper
    refine ⟨isMatching_renames _ before after, ?_⟩
    rw [length_deltas_eq hbefore hafter, ← (Repository.names_spec readable plain hid).2.2,
      Repository.names, Repository.changes?_of_single single, Option.getD_some, List.length_map]
    obtain ⟨other, found, whole⟩ := readable id hid.1
    cases hid.2.symm.trans found
    exact whole

/-- The commits of a history, last one first.  A file is moved while another one is modified on a branch,
and after the two branches have met the modified file is deleted. -/
def movedWalk : List Commit :=
  let commit (time : Int) (parents : List CommitId) (files : Files) : Commit :=
    let ada : Signature := ⟨⟨[0x41, 0x64, 0x61], [0x61]⟩, time⟩
    ⟨ada, ada, parents, some files⟩
  let file (letter : UInt8) (body : List UInt8) : List UInt8 × Blob := ([letter], ⟨⟨body.toArray⟩, false⟩)
  let a := 0x61
  let b := 0x62
  let c := 0x63
  [commit 500 ["merge"] [file c [1]],
    commit 400 ["move", "side"] [file b [3], file c [1]],
    commit 300 ["root"] [file a [1], file b [3]],
    commit 200 ["root"] [file b [2], file c [1]],
    commit 100 [] [file a [1], file b [2]]]

/-- The repository with this history. -/
def moved : Repository where
  commits := ["last", "merge", "side", "move", "root"].zip movedWalk
  head? := some "last"

theorem walk?_moved : moved.walk? = some movedWalk := by
  cbv

/-- It has plain files under three names. -/
theorem holdsPlainFiles_moved : moved.HoldsPlainFiles := by
  have hpaths : ∀ commit ∈ movedWalk, ((Repository.filesAfter commit).map Prod.fst).Nodup ∧
      ∀ path ∈ (Repository.filesAfter commit).map Prod.fst,
        path ∈ ["a", "b", "c"].map (·.toUTF8.data.toList) := by
    decide
  have hplain : ∀ name ∈ ["a", "b", "c"], 0x5C ∉ name.toUTF8.data.toList := by
    decide
  rintro ⟨id, commit⟩ mem files hfiles
  have hwalk := (Repository.walk?_visits walk?_moved).mem_iff.2 ⟨id, mem⟩
  obtain ⟨proper, hmem⟩ := hpaths commit hwalk
  rw [Repository.filesAfter, hfiles, Option.getD_some] at proper hmem
  refine ⟨proper, fun path mem => ?_, fun path mem => ?_⟩
  · obtain ⟨name, -, rfl⟩ := List.mem_map.1 (hmem path mem)
    exact ⟨name, Text.toList_eq_data_toList _⟩
  · obtain ⟨name, hname, rfl⟩ := List.mem_map.1 (hmem path mem)
    exact hplain name hname

/-- Its table has the three names, with the one that changed most in front. -/
theorem fileChurn_moved :
    (moved.summary 0 ((500 : Int) : Instant)).fileChurn = [⟨"b", 3⟩, ⟨"c", 1⟩, ⟨"a", 1⟩] := by
  cbv

/-- The moved file counts once under each of its names: when it was put in, and when it was moved. -/
theorem churn_exact_moved :
    moved.IsReadable ∧ moved.HoldsPlainFiles ∧
      (moved.summary 0 ((500 : Int) : Instant)).fileChurn = [⟨"b", 3⟩, ⟨"c", 1⟩, ⟨"a", 1⟩] ∧
      moved.churn "a" = 1 ∧ moved.churn "b" = 3 ∧ moved.churn "c" = 1 ∧ 3 ≤ moved.singles.ncard := by
  have readable : moved.IsReadable := by
    refine (Repository.isReadable_iff rfl).2 ⟨_, walk?_moved, ?_⟩
    cbv
  have plain := holdsPlainFiles_moved
  obtain ⟨-, -, -, ⟨_, order, -, -, -, -, htable⟩, bounds, -⟩ := churn_exact readable plain
  have hchurn : ∀ entry ∈ (moved.summary 0 ((500 : Int) : Instant)).fileChurn,
      moved.churn entry.file = entry.changes := by
    rw [htable]
    intro entry mem
    obtain ⟨name, -, rfl⟩ := List.mem_map.1 mem
    rfl
  have hbounds := bounds 0 ((500 : Int) : Instant)
  rw [fileChurn_moved] at hchurn hbounds
  exact ⟨readable, plain, fileChurn_moved, hchurn ⟨"a", 1⟩ (by simp), hchurn ⟨"b", 3⟩ (by simp),
    hchurn ⟨"c", 1⟩ (by simp), (hbounds ⟨"b", 3⟩ (by simp)).2⟩

end CodeCensus.History
