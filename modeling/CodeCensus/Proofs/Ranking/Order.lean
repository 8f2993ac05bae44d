import CodeCensus.Proofs.Ranking
import CodeCensus.Proofs.Sorting

/-!
# The order of a ranking

A ranking puts keys of more weight first, and keys of the same weight in the order in which they are first
seen.  No two keys are left without an order by this (`Ranked`), so that there is only one ranking of a list
of keys (`Ranked.unique`).

Two things have to be shown of a ranking of gathered entries.  Gathering keeps the order of first sight
(`pairwise_map_gather`), and sorting by weight keeps whatever order there was between entries of the same
weight (`pairwise_descending`).  A ranking that gathers nothing is the same thing for entries that are
numbered, as no two of them are then the same (`exists_ranked_zipIdx`).
-/

namespace CodeCensus.Ranking

variable {α β κ : Type}

/-! ### Sorting -/

section Descending

variable {measure : α → Nat} {before : α → α → Prop} {entries : List α}

/-- Entries of the same measure stay in the order in which they were. -/
theorem pairwise_descending (sorted : entries.Pairwise before) :
    (descending measure entries).Pairwise fun a b =>
      measure b < measure a ∨ measure a = measure b ∧ before a b := by
  induction entries with
  | nil => simp [descending]
  | cons a entries ih =>
    obtain ⟨hfirst, hrest⟩ := List.pairwise_cons.1 sorted
    obtain ⟨hplace, hsplit⟩ :=
      Sorting.mergeSort_cons_eq (measure_le_trans measure) (measure_le_total measure) a entries
    have hsorted := ih hrest
    rw [descending, ← hsplit, List.pairwise_append] at hsorted
    obtain ⟨hpassed, hothers, hacross⟩ := hsorted
    rw [descending, hplace, List.pairwise_append]
    refine ⟨hpassed, List.pairwise_cons.2 ⟨?_, hothers⟩, ?_⟩
    · intro b hb
      obtain ⟨hmem, hle⟩ := List.mem_filter.1 hb
      have hb' : before a b := hfirst b (List.mem_mergeSort.1 hmem)
      rcases Nat.lt_or_eq_of_le (of_decide_eq_true hle) with hlt | heq
      · exact Or.inl hlt
      · exact Or.inr ⟨heq.symm, hb'⟩
    · intro b hb c hc
      have hlt : measure a < measure b := by simpa using (List.mem_filter.1 hb).2
      rcases List.mem_cons.1 hc with rfl | hc
      · exact Or.inl hlt
      · exact hacross b hb c hc

/-- What entries are made of can be sorted before they are made. -/
theorem map_descending (f : β → α) (entries : List β) :
    (descending (fun b => measure (f b)) entries).map f = descending measure (entries.map f) :=
  List.map_mergeSort fun _ _ _ _ => rfl

end Descending

/-! ### Cut off rankings -/

section Top

variable {measure : α → Nat} {entries : List α} {standard : Nat}

/-- The first ranked keys give the first entries. -/
theorem top_eq_map_take {entryOf : κ → α} {order : List κ}
    (ranked : descending measure entries = order.map entryOf) (asked : Nat) :
    top asked standard measure entries =
      (order.take (min (limit asked standard) order.length)).map entryOf := by
  rw [top, ranked, ← List.map_take, List.take_eq_take_min]

/-- Of the entries of more than some measure, a ranking has as many as the limit allows. -/
theorem countP_top (asked bound : Nat) (entries : List α) :
    (top asked standard measure entries).countP (bound < measure ·) =
      min (entries.countP (bound < measure ·)) (limit asked standard) := by
  have hfirst : (descending measure entries).Pairwise fun a b =>
      decide (bound < measure b) → decide (bound < measure a) := by
    refine (pairwise_le_descending measure entries).imp fun le => ?_
    simpa using fun hb => Nat.lt_of_lt_of_le hb le
  rw [top, Sorting.countP_take hfirst, (descending_perm measure entries).countP_eq]

/-- A shorter ranking is the beginning of a longer one. -/
theorem top_prefix_top {shorter longer : Nat} (le : limit shorter standard ≤ limit longer standard) :
    top shorter standard measure entries <+: top longer standard measure entries :=
  List.take_prefix_take_left le

end Top

/-! ### Rankings of keys -/

variable [DecidableEq κ]

/-- An order of keys in which those of more weight come first, and those of the same weight in the order
in which they are first seen. -/
structure Ranked (weight : κ → Nat) (keys order : List κ) : Prop where
  /-- Every key is ranked once. -/
  nodup : order.Nodup
  /-- The keys that are ranked are those that are seen. -/
  mem_iff : ∀ key, key ∈ order ↔ key ∈ keys
  /-- More weight comes first, and what is seen earlier comes first among equals. -/
  sorted : order.Pairwise fun a b =>
    weight b < weight a ∨ weight a = weight b ∧ keys.idxOf a < keys.idxOf b

namespace Ranked

variable {weight : κ → Nat} {keys order other : List κ}

/-- Of two keys only one can come first, so that there is only one ranking. -/
theorem unique (ranked : Ranked weight keys order) (also : Ranked weight keys other) : order = other := by
  have hperm : order.Perm other :=
    (List.perm_ext_iff_of_nodup ranked.nodup also.nodup).2 fun key =>
      (ranked.mem_iff key).trans (also.mem_iff key).symm
  refine hperm.eq_of_pairwise ?_ ranked.sorted also.sorted
  intro a b _ _ hab hba
  omega

/-- What is cut off has at most the weight of what is kept. -/
theorem weight_le (ranked : Ranked weight keys order) (count : Nat) {kept omitted : κ}
    (hkept : kept ∈ order.take count) (homitted : omitted ∈ order.drop count) :
    weight omitted ≤ weight kept := by
  have hsorted := ranked.sorted
  rw [← List.take_append_drop count order, List.pairwise_append] at hsorted
  rcases hsorted.2.2 kept hkept omitted homitted with hlt | ⟨heq, -⟩
  · exact hlt.le
  · exact heq.ge

end Ranked

/-! ### Gathered entries -/

section Gather

variable {keyOf : α → κ} {keyIn : β → κ} {fresh : β → α} {change : β → α → α}

section Keys

variable (keyFresh : ∀ input, keyOf (fresh input) = keyIn input)
  (keyChange : ∀ input a, keyOf (change input a) = keyOf a)

include keyFresh keyChange

/-- Entries stand in the order in which their keys are first seen. -/
theorem pairwise_map_gather (inputs : List β) :
    ((gather keyOf keyIn fresh change inputs).map keyOf).Pairwise fun j k =>
      (inputs.map keyIn).idxOf j < (inputs.map keyIn).idxOf k := by
  induction inputs using List.reverseRecOn with
  | nil => simp [gather]
  | append_singleton inputs input ih =>
    have hseen : ∀ key ∈ (gather keyOf keyIn fresh change inputs).map keyOf, key ∈ inputs.map keyIn :=
      fun key => (mem_map_gather keyFresh keyChange).1
    have hold := ih.imp_of_mem (S := fun j k => (inputs.map keyIn ++ [keyIn input]).idxOf j <
      (inputs.map keyIn ++ [keyIn input]).idxOf k) fun hj hk hlt => by
        rwa [List.idxOf_append_of_mem (hseen _ hj), List.idxOf_append_of_mem (hseen _ hk)]
    rw [gather_concat, map_upsert (keyFresh input) (keyChange input), List.map_append, List.map_singleton]
    split
    · exact hold
    · next new =>
      have hnew : keyIn input ∉ inputs.map keyIn := fun old =>
        new ((mem_map_gather keyFresh keyChange).2 old)
      refine List.pairwise_append.2 ⟨hold, List.pairwise_singleton _ _, ?_⟩
      intro key hkey last hlast
      rw [List.mem_singleton.1 hlast, List.idxOf_append_of_mem (hseen key hkey),
        List.idxOf_append_of_notMem hnew]
      exact Nat.lt_add_right _ (List.idxOf_lt_length_of_mem (hseen key hkey))

end Keys

/-- Gathered entries are the ranked keys, each with what the inputs with this key have together. -/
theorem AddsUp.exists_ranked {weights : List (α → Nat)}
    (adds : AddsUp keyOf keyIn fresh change weights) {inputs : List β} (measure : α → Nat)
    {entryOf : κ → α} (key : ∀ k, keyOf (entryOf k) = k)
    (totals : ∀ weight ∈ weights, ∀ k, weight (entryOf k) =
      ((inputs.filter fun input => keyIn input = k).map fun input => weight (fresh input)).sum) :
    ∃ order, Ranked (fun key => measure (entryOf key)) (inputs.map keyIn) order ∧
      descending measure (gather keyOf keyIn fresh change inputs) = order.map entryOf := by
  set entries := gather keyOf keyIn fresh change inputs with hentries
  have hperm : (descending measure entries).Perm entries := descending_perm measure entries
  have hknown : ∀ a ∈ descending measure entries, a = entryOf (keyOf a) := by
    intro a ha
    refine adds.eq_of_mem_gather (hperm.mem_iff.1 ha) (key (keyOf a)).symm fun weight mem => ?_
    rw [totals weight mem, key]
  refine ⟨(descending measure entries).map keyOf, ⟨?_, ?_, ?_⟩, ?_⟩
  · rw [(hperm.map keyOf).nodup_iff]
    exact nodup_map_gather adds.keyFresh adds.keyChange inputs
  · intro key
    rw [(hperm.map keyOf).mem_iff]
    exact mem_map_gather adds.keyFresh adds.keyChange
  · have hseen := pairwise_map_gather adds.keyFresh adds.keyChange inputs
    rw [List.pairwise_map] at hseen ⊢
    refine (pairwise_descending hseen).imp_of_mem fun ha hb first => ?_
    rwa [← hknown _ ha, ← hknown _ hb]
  · rw [List.map_map]
    exact ((List.map_congr_left fun a ha => (hknown a ha).symm).trans (List.map_id _)).symm

end Gather

/-! ### Numbered entries -/

/-- Where no key is seen twice, the keys are seen in the order in which they stand. -/
theorem pairwise_idxOf {keys : List κ} (different : keys.Nodup) :
    keys.Pairwise fun a b => keys.idxOf a < keys.idxOf b := by
  rw [List.pairwise_iff_getElem]
  intro i j hi hj hlt
  rwa [different.idxOf_getElem, different.idxOf_getElem]

/-- Entries are numbered upwards. -/
theorem pairwise_zipIdx (entries : List α) (first : Nat) :
    (entries.zipIdx first).Pairwise fun a b => a.2 < b.2 := by
  rw [← List.pairwise_map, List.zipIdx_map_snd]
  exact List.pairwise_lt_range'

/-- Entries with their numbers are all different, so that they are ranked without being gathered. -/
theorem exists_ranked_zipIdx [DecidableEq α] (measure : α → Nat) (entries : List α) :
    ∃ order : List (α × Nat), Ranked (fun entry => measure entry.1) entries.zipIdx order ∧
      descending measure entries = order.map Prod.fst := by
  have hnodup : entries.zipIdx.Nodup :=
    (pairwise_zipIdx entries 0).imp fun hlt same => hlt.ne (congrArg Prod.snd same)
  have hperm := descending_perm (fun entry : α × Nat => measure entry.1) entries.zipIdx
  refine ⟨descending (fun entry => measure entry.1) entries.zipIdx, ⟨?_, ?_, ?_⟩, ?_⟩
  · rwa [hperm.nodup_iff]
  · exact fun key => hperm.mem_iff
  · exact pairwise_descending (pairwise_idxOf hnodup)
  · rw [map_descending, List.zipIdx_map_fst]

end CodeCensus.Ranking
