import CodeCensus.History.Repository
import Mathlib.Data.List.Nodup
import Mathlib.Data.List.Perm.Basic
import Mathlib.Data.Set.Card

/-!
# Reachable commits

Which commits belong to the history of a repository is said by an inductive relation: those of some
first identifiers, and with a commit also its parents.  The walk, which keeps a list of the identifiers
it has seen, meets exactly these commits and each of them once, however they are connected
(`walk?_visits`), and it comes to an end with a list as soon as none of them is lost
(`walk?_isSome`).

`Repository.Visits` says of a list that it has every commit of the history once, in any order.  What
does not depend on the order of the list is therefore determined by the history alone; in particular
the commits of some kind in the list are as many as there are in the history
(`Visits.countP_eq_ncard`).

The walk has the latest commits first.  Nothing else is known of its order: every list of the history with
the latest commits first is the walk in some way of reading it (`exists_walk?_along`).
-/

namespace CodeCensus.History.Repository

variable {repository : Repository}

/-! ### Reaching -/

/-- The identifiers that can be reached from some identifiers over parents. -/
inductive ReachedFrom (repository : Repository) (ids : List CommitId) : CommitId → Prop where
  | start {id : CommitId} (mem : id ∈ ids) : ReachedFrom repository ids id
  | parent {id parent : CommitId} {commit : Commit} (reached : ReachedFrom repository ids id)
      (found : repository.find? id = some commit) (isParent : parent ∈ commit.parents) :
      ReachedFrom repository ids parent

/-- The identifiers that can be reached from the head. -/
def Reachable (repository : Repository) : CommitId → Prop :=
  repository.ReachedFrom repository.head?.toList

/-- What is reached from some commits is reached from wherever these are reached from. -/
theorem ReachedFrom.of_forall {ids others : List CommitId} {id : CommitId}
    (reached : repository.ReachedFrom ids id)
    (each : ∀ other ∈ ids, repository.ReachedFrom others other) : repository.ReachedFrom others id := by
  induction reached with
  | start mem => exact each _ mem
  | parent _ found isParent ih => exact ih.parent found isParent

/-- More commits to begin with reach at least as much. -/
theorem ReachedFrom.of_subset {ids others : List CommitId} (subset : ids ⊆ others) {id : CommitId}
    (reached : repository.ReachedFrom ids id) : repository.ReachedFrom others id :=
  reached.of_forall fun _ mem => .start (subset mem)

/-- What is reached from the parents of a commit is reached from the commit. -/
theorem ReachedFrom.of_parents {id : CommitId} {commit : Commit} {rest : List CommitId}
    (found : repository.find? id = some commit) {other : CommitId}
    (reached : repository.ReachedFrom (commit.parents ++ rest) other) :
    repository.ReachedFrom (id :: rest) other := by
  refine reached.of_forall fun first mem => ?_
  rcases List.mem_append.1 mem with isParent | inRest
  · exact (ReachedFrom.start List.mem_cons_self).parent found isParent
  · exact .start (List.mem_cons_of_mem id inRest)

/-- The commits of the history with their identifiers. -/
def history (repository : Repository) : Set (CommitId × Commit) :=
  {entry | repository.Reachable entry.1 ∧ repository.find? entry.1 = some entry.2}

/-- A history is finite, as a repository has finitely many commits. -/
theorem history_finite (repository : Repository) : repository.history.Finite := by
  refine (List.finite_toSet repository.commits).subset ?_
  rintro ⟨id, commit⟩ ⟨_, found⟩
  obtain ⟨before, after, eq, _⟩ := List.lookup_eq_some_iff.1 found
  rw [Set.mem_ofPred_eq, eq]
  exact List.mem_append_right before List.mem_cons_self

/-- Without a head there is no history. -/
theorem history_eq_empty (headless : repository.head? = none) : repository.history = ∅ := by
  refine Set.eq_empty_of_forall_notMem ?_
  rintro entry ⟨reachable, _⟩
  rw [Reachable, headless] at reachable
  generalize entry.1 = id at reachable
  induction reachable with
  | start mem => exact List.not_mem_nil mem
  | parent _ _ _ ih => exact ih

/-! ### Collecting -/

/-- What a collection has met: commits that were not seen before, each once and each of them reachable,
among them all that were not seen before of those to begin with and of the parents. -/
structure Collected (repository : Repository) (seen ids : List CommitId)
    (met : List (CommitId × Commit)) : Prop where
  nodup : (met.map Prod.fst).Nodup
  unseen : ∀ entry ∈ met, entry.1 ∉ seen
  found : ∀ entry ∈ met, repository.find? entry.1 = some entry.2
  reached : ∀ entry ∈ met, repository.ReachedFrom ids entry.1
  start : ∀ id ∈ ids, id ∈ seen ∨ id ∈ met.map Prod.fst
  closed : ∀ entry ∈ met, ∀ parent ∈ entry.2.parents, parent ∈ seen ∨ parent ∈ met.map Prod.fst

/-- An identifier that was seen before adds nothing. -/
theorem Collected.skip {seen ids : List CommitId} {met : List (CommitId × Commit)} {id : CommitId}
    (collected : repository.Collected seen ids met) (known : id ∈ seen) :
    repository.Collected seen (id :: ids) met := by
  refine { collected with reached := fun entry mem => ?_, start := fun other mem => ?_ }
  · exact (collected.reached entry mem).of_subset (List.subset_cons_self id ids)
  · rcases List.mem_cons.1 mem with rfl | later
    · exact Or.inl known
    · exact collected.start other later

/-- A commit that was not seen before is met, and then what is met from its parents on. -/
theorem Collected.visit {seen ids : List CommitId} {met : List (CommitId × Commit)} {id : CommitId}
    {commit : Commit} (fresh : id ∉ seen) (found : repository.find? id = some commit)
    (collected : repository.Collected (id :: seen) (commit.parents ++ ids) met) :
    repository.Collected seen (id :: ids) ((id, commit) :: met) := by
  -- What the rest takes as seen has been seen before or is the commit itself.
  have hmove : ∀ other, other ∈ id :: seen ∨ other ∈ met.map Prod.fst →
      other ∈ seen ∨ other ∈ ((id, commit) :: met).map Prod.fst := by
    intro other h
    rw [List.map_cons, List.mem_cons]
    rw [List.mem_cons] at h
    tauto
  have hnew : id ∉ met.map Prod.fst := by
    intro h
    obtain ⟨entry, mem, rfl⟩ := List.mem_map.1 h
    exact collected.unseen entry mem List.mem_cons_self
  refine ⟨?_, ?_, ?_, ?_, ?_, ?_⟩
  · exact List.nodup_cons.2 ⟨hnew, collected.nodup⟩
  · rw [List.forall_mem_cons]
    exact ⟨fresh, fun entry mem h => collected.unseen entry mem (List.mem_cons_of_mem id h)⟩
  · rw [List.forall_mem_cons]
    exact ⟨found, collected.found⟩
  · rw [List.forall_mem_cons]
    exact ⟨.start List.mem_cons_self, fun entry mem => (collected.reached entry mem).of_parents found⟩
  · rw [List.forall_mem_cons]
    refine ⟨Or.inr List.mem_cons_self, fun other mem => hmove other ?_⟩
    exact collected.start other (List.mem_append_right commit.parents mem)
  · rw [List.forall_mem_cons]
    constructor
    · intro parent isParent
      exact hmove parent (collected.start parent (List.mem_append_left ids isParent))
    · intro entry mem parent isParent
      exact hmove parent (collected.closed entry mem parent isParent)

/-- A commit that is lost makes the whole walk fail. -/
theorem collect_of_lost {seen rest : List CommitId} {id : CommitId} (fresh : id ∉ seen)
    (lost : repository.find? id = none) : repository.collect seen (id :: rest) = none := by
  rw [collect, dif_neg fresh]
  split
  · rfl
  · next found => simp [lost] at found

/-- A commit that is found is followed by its parents, and then by what was waiting. -/
theorem collect_of_found {seen rest : List CommitId} {id : CommitId} {commit : Commit}
    (fresh : id ∉ seen) (found : repository.find? id = some commit) :
    repository.collect seen (id :: rest) =
      (repository.collect (id :: seen) (commit.parents ++ rest)).map (commit :: ·) := by
  rw [collect, dif_neg fresh]
  split
  · next lost => simp [found] at lost
  · next other hother =>
    cases found.symm.trans hother
    rfl

/-- Every collection of commits has met them in this way. -/
theorem collect_collected {seen ids : List CommitId} {commits : List Commit}
    (done : repository.collect seen ids = some commits) :
    ∃ met, repository.Collected seen ids met ∧ met.map Prod.snd = commits := by
  induction seen, ids using collect.induct repository generalizing commits with
  | case1 seen =>
    rw [collect] at done
    cases done
    exact ⟨[], ⟨by simp, by simp, by simp, by simp, by simp, by simp⟩, rfl⟩
  | case2 seen id rest known ih =>
    rw [collect, dif_pos known] at done
    obtain ⟨met, collected, rfl⟩ := ih done
    exact ⟨met, collected.skip known, rfl⟩
  | case3 seen id rest fresh lost =>
    rw [collect_of_lost fresh lost] at done
    cases done
  | case4 seen id rest fresh commit found _ ih =>
    rw [collect_of_found fresh found] at done
    obtain ⟨others, hothers, rfl⟩ := Option.map_eq_some_iff.1 done
    obtain ⟨met, collected, rfl⟩ := ih hothers
    exact ⟨(id, commit) :: met, collected.visit fresh found, rfl⟩

/-- A collection comes to an end with a list if no commit in reach is lost. -/
theorem collect_isSome {seen ids : List CommitId}
    (complete : ∀ id, repository.ReachedFrom ids id → (repository.find? id).isSome) :
    (repository.collect seen ids).isSome := by
  induction seen, ids using collect.induct repository with
  | case1 seen => rw [collect, Option.isSome_some]
  | case2 seen id rest known ih =>
    rw [collect, dif_pos known]
    exact ih fun other reached => complete other (reached.of_subset (List.subset_cons_self id rest))
  | case3 seen id rest fresh lost =>
    have := complete id (.start List.mem_cons_self)
    rw [lost] at this
    cases this
  | case4 seen id rest fresh commit found _ ih =>
    rw [collect_of_found fresh found, Option.isSome_map]
    exact ih fun other reached => complete other (reached.of_parents found)

/-! ### Walking -/

/-- A list that has every commit of the history once, in any order. -/
def Visits (repository : Repository) (commits : List Commit) : Prop :=
  ∃ met : List (CommitId × Commit), (met.map Prod.fst).Nodup ∧
    (∀ entry, entry ∈ met ↔ entry ∈ repository.history) ∧ commits.Perm (met.map Prod.snd)

/-- From the head on, a collection meets everything that is reachable. -/
theorem Collected.mem_of_reachable {met : List (CommitId × Commit)}
    (collected : repository.Collected [] repository.head?.toList met) {id : CommitId}
    (reachable : repository.Reachable id) : id ∈ met.map Prod.fst := by
  induction reachable with
  | start mem => exact (collected.start _ mem).resolve_left List.not_mem_nil
  | parent _ found isParent ih =>
    obtain ⟨⟨id, commit⟩, mem, rfl⟩ := List.mem_map.1 ih
    cases found.symm.trans (collected.found _ mem)
    exact (collected.closed _ mem _ isParent).resolve_left List.not_mem_nil

/-- A collection from the head on is the history. -/
theorem Collected.mem_iff {met : List (CommitId × Commit)}
    (collected : repository.Collected [] repository.head?.toList met) (entry : CommitId × Commit) :
    entry ∈ met ↔ entry ∈ repository.history := by
  constructor
  · intro mem
    exact ⟨collected.reached entry mem, collected.found entry mem⟩
  · rintro ⟨reachable, found⟩
    obtain ⟨⟨id, commit⟩, mem, hid⟩ := List.mem_map.1 (collected.mem_of_reachable reachable)
    have hcommit := collected.found _ mem
    rw [hid, found] at hcommit
    cases hid
    cases hcommit
    exact mem

/-- A walk takes what is collected from the head on, and puts it into the order of the itinerary. -/
theorem walk?_eq_some_iff {commits : List Commit} :
    repository.walk? = some commits ↔ ∃ head found, repository.head? = some head ∧
      repository.collect [] [head] = some found ∧
      repository.reading.itinerary.arrange found = commits := by
  simp [walk?, Option.bind_eq_some_iff]

/-- A walk is a collection from the head on in another order. -/
theorem walk?_collected {commits : List Commit} (walked : repository.walk? = some commits) :
    ∃ met, repository.Collected [] repository.head?.toList met ∧ commits.Perm (met.map Prod.snd) := by
  obtain ⟨head, found, hhead, hfound, rfl⟩ := walk?_eq_some_iff.1 walked
  obtain ⟨met, collected, rfl⟩ := collect_collected hfound
  rw [← Option.toList_some, ← hhead] at collected
  exact ⟨met, collected, repository.reading.itinerary.perm _⟩

/-- The walk has every commit of the history once. -/
theorem walk?_visits {commits : List Commit} (walked : repository.walk? = some commits) :
    repository.Visits commits := by
  obtain ⟨met, collected, hperm⟩ := walk?_collected walked
  exact ⟨met, collected.nodup, collected.mem_iff, hperm⟩

/-- The walk comes to later commits first. -/
theorem pairwise_walk? {commits : List Commit} (walked : repository.walk? = some commits) :
    commits.Pairwise fun a b => b.committer.time ≤ a.committer.time := by
  obtain ⟨_, found, _, _, rfl⟩ := walk?_eq_some_iff.1 walked
  exact repository.reading.itinerary.latestFirst found

/-- Where there is a walk, no commit in reach is lost. -/
theorem isSome_find?_of_walk? {commits : List Commit} (walked : repository.walk? = some commits)
    {id : CommitId} (reachable : repository.Reachable id) : (repository.find? id).isSome := by
  obtain ⟨met, collected, _⟩ := walk?_collected walked
  obtain ⟨entry, mem, rfl⟩ := List.mem_map.1 (collected.mem_of_reachable reachable)
  rw [collected.found entry mem, Option.isSome_some]

/-- There is a walk if no commit in reach is lost, and there is a head. -/
theorem walk?_isSome {head : CommitId} (hhead : repository.head? = some head)
    (complete : ∀ id, repository.Reachable id → (repository.find? id).isSome) :
    repository.walk?.isSome := by
  have hcollect : (repository.collect [] [head]).isSome := by
    refine collect_isSome fun id reached => complete id ?_
    rwa [Reachable, hhead]
  obtain ⟨commits, hcommits⟩ := Option.isSome_iff_exists.1 hcollect
  exact Option.isSome_iff_exists.2 ⟨_, walk?_eq_some_iff.2 ⟨head, commits, hhead, hcommits, rfl⟩⟩

/-! ### Lists of the history -/

namespace Visits

variable {commits : List Commit}

/-- A list that visits a history has its commits. -/
theorem mem_iff (visits : repository.Visits commits) {commit : Commit} :
    commit ∈ commits ↔ ∃ id, (id, commit) ∈ repository.history := by
  obtain ⟨met, _, hmet, hperm⟩ := visits
  rw [hperm.mem_iff, List.mem_map]
  constructor
  · rintro ⟨⟨id, _⟩, mem, rfl⟩
    exact ⟨id, (hmet _).1 mem⟩
  · rintro ⟨id, mem⟩
    exact ⟨(id, commit), (hmet _).2 mem, rfl⟩

/-- What some commit of the list has, some commit of the history has. -/
theorem exists_iff (visits : repository.Visits commits) {property : Commit → Prop} :
    (∃ commit ∈ commits, property commit) ↔ ∃ entry ∈ repository.history, property entry.2 := by
  constructor
  · rintro ⟨commit, mem, holds⟩
    obtain ⟨id, mem⟩ := visits.mem_iff.1 mem
    exact ⟨(id, commit), mem, holds⟩
  · rintro ⟨⟨id, commit⟩, mem, holds⟩
    exact ⟨commit, visits.mem_iff.2 ⟨id, mem⟩, holds⟩

/-- Two lists of the history differ in their order only. -/
theorem perm {others : List Commit} (visits : repository.Visits commits)
    (otherwise : repository.Visits others) : commits.Perm others := by
  obtain ⟨met, hnodup, hmet, hperm⟩ := visits
  obtain ⟨met', hnodup', hmet', hperm'⟩ := otherwise
  have hsame : met.Perm met' := by
    refine (List.perm_ext_iff_of_nodup (hnodup.of_map _) (hnodup'.of_map _)).2 fun entry => ?_
    rw [hmet, hmet']
  exact hperm.trans ((hsame.map Prod.snd).trans hperm'.symm)

/-- The commits of some kind in a list of the history are as many as in the history. -/
theorem countP_eq_ncard (visits : repository.Visits commits) (kind : Commit → Bool) :
    commits.countP kind = {entry ∈ repository.history | kind entry.2}.ncard := by
  classical
  obtain ⟨met, hnodup, hmet, hperm⟩ := visits
  have hset : {entry ∈ repository.history | kind entry.2} =
      ((met.filter fun entry => kind entry.2).toFinset : Set (CommitId × Commit)) := by
    ext entry
    simp [hmet]
  rw [hset, Set.ncard_coe_finset, List.toFinset_card_of_nodup ((hnodup.of_map _).filter _),
    hperm.countP_eq, List.countP_map, List.countP_eq_length_filter]
  rfl

theorem length_eq_ncard (visits : repository.Visits commits) :
    commits.length = repository.history.ncard := by
  simpa using visits.countP_eq_ncard fun _ => true

end Visits

/-! ### Ways to read a history -/

section Reading

variable {reading : Reading} {seen ids : List CommitId} {commits order : List Commit}

/-- A repository whose history is read in another way. -/
def withReading (repository : Repository) (reading : Reading) : Repository :=
  { repository with reading }

/-- A repository whose commits are visited in another order. -/
def along (repository : Repository) (itinerary : Itinerary) : Repository :=
  repository.withReading { repository.reading with itinerary }

/-- A repository whose contributors are enumerated in another order. -/
def enumerated (repository : Repository) (enumeration : Enumeration) : Repository :=
  repository.withReading { repository.reading with enumeration }

/-- In which order commits are met does not depend on the way of reading. -/
theorem collect_withReading :
    (repository.withReading reading).collect seen ids = repository.collect seen ids := by
  induction seen, ids using collect.induct repository with
  | case1 seen => rw [collect, collect]
  | case2 seen id rest known ih => rw [collect, dif_pos known, ih, collect, dif_pos known]
  | case3 seen id rest fresh lost =>
    rw [collect_of_lost fresh lost]
    exact collect_of_lost fresh lost
  | case4 seen id rest fresh commit found _ ih =>
    rw [collect_of_found fresh found, ← ih]
    exact collect_of_found fresh found

/-- In another reading the same commits are collected, and put into its order. -/
theorem walk?_withReading_eq_some_iff :
    (repository.withReading reading).walk? = some commits ↔ ∃ head found,
      repository.head? = some head ∧ repository.collect [] [head] = some found ∧
      reading.itinerary.arrange found = commits := by
  simp only [walk?_eq_some_iff, collect_withReading]
  rfl

/-- The order of the contributors does not matter to the walk. -/
theorem walk?_enumerated (enumeration : Enumeration) :
    (repository.enumerated enumeration).walk? = repository.walk? :=
  Option.ext fun _ => walk?_withReading_eq_some_iff.trans walk?_eq_some_iff.symm

/-- Another reading reaches nothing new. -/
theorem ReachedFrom.of_withReading {id : CommitId}
    (reached : (repository.withReading reading).ReachedFrom ids id) : repository.ReachedFrom ids id := by
  induction reached with
  | start mem => exact .start mem
  | parent _ found isParent ih => exact ih.parent found isParent

/-- What can be reached is a matter of the commits alone, not of the reading. -/
theorem reachable_withReading {id : CommitId} :
    (repository.withReading reading).Reachable id ↔ repository.Reachable id := by
  constructor
  · exact fun reached => reached.of_withReading
  · -- The first way of reading is one for the other repository.
    intro reached
    have back : ((repository.withReading reading).withReading repository.reading).Reachable id := reached
    exact back.of_withReading

/-- The itinerary that has the commits of a list in the order of the list. -/
noncomputable def itineraryOf (order : List Commit)
    (latestFirst : order.Pairwise fun a b => b.committer.time ≤ a.committer.time) : Itinerary :=
  open Classical in
  { arrange := fun commits => if order.Perm commits then order else Itinerary.stable.arrange commits
    perm := fun commits => by
      split
      · next perm => exact perm
      · exact Itinerary.stable.perm commits
    latestFirst := fun commits => by
      split
      · exact latestFirst
      · exact Itinerary.stable.latestFirst commits }

/-- Every order of a walked history that has the latest commits first is the order of a walk. -/
theorem exists_walk?_along (walked : repository.walk? = some commits) (visits : repository.Visits order)
    (latestFirst : order.Pairwise fun a b => b.committer.time ≤ a.committer.time) :
    ∃ itinerary, (repository.along itinerary).walk? = some order := by
  have hperm : order.Perm commits := visits.perm (walk?_visits walked)
  obtain ⟨head, found, hhead, hfound, rfl⟩ := walk?_eq_some_iff.1 walked
  refine ⟨itineraryOf order latestFirst, walk?_withReading_eq_some_iff.2 ⟨head, found, hhead, hfound, ?_⟩⟩
  exact if_pos (hperm.trans (repository.reading.itinerary.perm found))

end Reading

/-! ### Reading the whole history -/

/-- Whether nothing is lost that has to be read for the history: neither a commit, nor the files that
are compared for its changes. -/
def IsReadable (repository : Repository) : Prop :=
  ∀ id, repository.Reachable id →
    ∃ commit, repository.find? id = some commit ∧ (repository.changes? commit).isSome

theorem isSome_mapM_iff {α β : Type} {f : α → Option β} {as : List α} :
    (as.mapM f).isSome ↔ ∀ a ∈ as, (f a).isSome := by
  induction as with
  | nil => simp
  | cons a rest ih =>
    rw [List.forall_mem_cons, ← ih, List.mapM_cons]
    cases f a <;> cases rest.mapM f <;> simp

/-- Whether a history can be read does not depend on the order in which contributors are enumerated. -/
theorem isReadable_enumerated (enumeration : Enumeration) :
    (repository.enumerated enumeration).IsReadable ↔ repository.IsReadable :=
  forall_congr' fun _ => imp_congr reachable_withReading Iff.rfl

/-- The history can be read if and only if the walk and the changes of all its commits are there. -/
theorem isReadable_iff {head : CommitId} (hhead : repository.head? = some head) :
    repository.IsReadable ↔
      ∃ commits, repository.walk? = some commits ∧ (commits.mapM repository.changes?).isSome := by
  constructor
  · intro readable
    have hwalk : repository.walk?.isSome := by
      refine walk?_isSome hhead fun id reachable => ?_
      obtain ⟨commit, found, _⟩ := readable id reachable
      rw [found, Option.isSome_some]
    obtain ⟨commits, walked⟩ := Option.isSome_iff_exists.1 hwalk
    refine ⟨commits, walked, isSome_mapM_iff.2 fun commit mem => ?_⟩
    obtain ⟨id, reachable, found⟩ := (walk?_visits walked).mem_iff.1 mem
    obtain ⟨other, hother, changed⟩ := readable id reachable
    cases found.symm.trans hother
    exact changed
  · rintro ⟨commits, walked, changed⟩ id reachable
    obtain ⟨commit, found⟩ := Option.isSome_iff_exists.1 (isSome_find?_of_walk? walked reachable)
    refine ⟨commit, found, isSome_mapM_iff.1 changed commit ?_⟩
    exact (walk?_visits walked).mem_iff.2 ⟨id, reachable, found⟩

end CodeCensus.History.Repository
