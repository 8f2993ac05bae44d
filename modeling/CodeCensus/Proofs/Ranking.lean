import CodeCensus.Ranking
import Mathlib.Algebra.BigOperators.Group.List.Basic
import Mathlib.Algebra.Order.BigOperators.Group.List
import Mathlib.Algebra.Order.Monoid.NatCast
import Mathlib.Algebra.Order.Ring.Nat
import Mathlib.Data.List.Induction
import Mathlib.Data.List.Nodup

/-!
# What gathering and ranking keep

Gathering puts every input into the entry of its key.  A quantity that a change increases by what a
fresh entry would have is therefore the same for all entries together as for all inputs together
(`sum_gather`), and the same for the entry of one key as for the inputs with that key
(`weight_eq_of_mem_gather`).

Ranking only reorders the entries and drops some at the end, so that sums over a ranking are at most the
sums over the entries, and equal to them if the limit allows all of them.

The order of the inputs decides in which order the entries stand, and nothing else: if an entry is known
from its key and from such quantities (`AddsUp`), the entries are the same (`AddsUp.gather_perm`), and so
are the measures of a ranking of them from the first to the last (`map_top_eq`).
-/

namespace CodeCensus.Ranking

variable {α β κ : Type} [DecidableEq κ]

/-! ### One input -/

section Upsert

variable {keyOf : α → κ} {key : κ} {fresh : α} {change : α → α}

/-- Changing the entry of a key adds at most one entry. -/
theorem length_upsert_le (entries : List α) :
    (upsert keyOf key fresh change entries).length ≤ entries.length + 1 := by
  induction entries with
  | nil => simp [upsert]
  | cons a rest ih =>
    rw [upsert]
    split
    · simp
    · simpa using ih

/-- A quantity that a change increases by that of the fresh entry is increased by that much in all. -/
theorem sum_upsert {weight : α → Nat}
    (additive : ∀ a, keyOf a = key → weight (change a) = weight a + weight fresh) (entries : List α) :
    ((upsert keyOf key fresh change entries).map weight).sum =
      (entries.map weight).sum + weight fresh := by
  induction entries with
  | nil => simp [upsert]
  | cons a rest ih =>
    rw [upsert]
    split
    · next same =>
      simp only [List.map_cons, List.sum_cons, additive a same]
      omega
    · simp only [List.map_cons, List.sum_cons, ih]
      omega

/-- A key that is not there yet comes last; no other key changes. -/
theorem map_upsert (keyFresh : keyOf fresh = key) (keyChange : ∀ a, keyOf (change a) = keyOf a)
    (entries : List α) : (upsert keyOf key fresh change entries).map keyOf =
      if key ∈ entries.map keyOf then entries.map keyOf else entries.map keyOf ++ [key] := by
  induction entries with
  | nil => simp [upsert, keyFresh]
  | cons a rest ih =>
    rw [upsert]
    by_cases same : keyOf a = key
    · simp [same, keyChange]
    · have different : key ≠ keyOf a := fun h => same h.symm
      rw [if_neg same, List.map_cons, ih]
      by_cases known : key ∈ rest.map keyOf
      · rw [if_pos known, if_pos (by simpa using Or.inr known), List.map_cons]
      · rw [if_neg known, if_neg (by simpa [different] using known), List.map_cons, List.cons_append]

end Upsert

/-! ### One key -/

/-- Where no key has two entries, the entries with the key of one of them are this one. -/
theorem filter_key_eq {keyOf : α → κ} {entries : List α}
    (different : (entries.map keyOf).Nodup) {a : α} (entry : a ∈ entries) :
    (entries.filter fun b => keyOf b = keyOf a) = [a] := by
  induction entries with
  | nil => cases entry
  | cons b rest ih =>
    obtain ⟨new, different⟩ := List.nodup_cons.1 different
    rcases List.mem_cons.1 entry with rfl | entry
    · have hrest : (rest.filter fun b => keyOf b = keyOf a) = [] := by
        refine List.filter_eq_nil_iff.2 fun b hb same => new ?_
        exact List.mem_map.2 ⟨b, hb, by simpa using same⟩
      simp [hrest]
    · have hne : keyOf b ≠ keyOf a := fun same =>
        new (same ▸ List.mem_map_of_mem entry)
      simp [hne, ih different entry]

/-! ### All inputs -/

section Gather

variable {keyOf : α → κ} {keyIn : β → κ} {fresh : β → α} {change : β → α → α}

/-- The last input is put into what the others have given. -/
theorem gather_concat (inputs : List β) (input : β) :
    gather keyOf keyIn fresh change (inputs ++ [input]) =
      upsert keyOf (keyIn input) (fresh input) (change input)
        (gather keyOf keyIn fresh change inputs) := by
  simp [gather, List.foldl_append]

/-- There are no more entries than things that were gathered. -/
theorem length_gather_le (inputs : List β) :
    (gather keyOf keyIn fresh change inputs).length ≤ inputs.length := by
  induction inputs using List.reverseRecOn with
  | nil => simp [gather]
  | append_singleton inputs input ih =>
    rw [gather_concat, List.length_append, List.length_singleton]
    exact (length_upsert_le _).trans (Nat.succ_le_succ ih)

/-- What all entries have together is what all inputs have together. -/
theorem sum_gather {weight : α → Nat} (additive : ∀ input a, keyOf a = keyIn input →
      weight (change input a) = weight a + weight (fresh input)) (inputs : List β) :
    ((gather keyOf keyIn fresh change inputs).map weight).sum =
      (inputs.map fun input => weight (fresh input)).sum := by
  induction inputs using List.reverseRecOn with
  | nil => simp [gather]
  | append_singleton inputs input ih =>
    rw [gather_concat, sum_upsert (additive input), ih, List.map_append, List.sum_append,
      List.map_singleton, List.sum_singleton]

section Keys

variable (keyFresh : ∀ input, keyOf (fresh input) = keyIn input)
  (keyChange : ∀ input a, keyOf (change input a) = keyOf a)

include keyFresh keyChange

/-- The keys of the entries are those of the inputs. -/
theorem mem_map_gather {inputs : List β} {key : κ} :
    key ∈ (gather keyOf keyIn fresh change inputs).map keyOf ↔ key ∈ inputs.map keyIn := by
  induction inputs using List.reverseRecOn with
  | nil => simp [gather]
  | append_singleton inputs input ih =>
    rw [gather_concat, map_upsert (keyFresh input) (keyChange input), List.map_append, List.mem_append,
      ← ih, List.map_singleton, List.mem_singleton]
    split
    · next known => exact ⟨Or.inl, fun h => h.elim id (fun same => same ▸ known)⟩
    · rw [List.mem_append, List.mem_singleton]

/-- No key has two entries. -/
theorem nodup_map_gather (inputs : List β) :
    ((gather keyOf keyIn fresh change inputs).map keyOf).Nodup := by
  induction inputs using List.reverseRecOn with
  | nil => simp [gather]
  | append_singleton inputs input ih =>
    rw [gather_concat, map_upsert (keyFresh input) (keyChange input)]
    split
    · exact ih
    · next new =>
      rw [← List.concat_eq_append]
      exact ih.concat new

/-- What an entry has is what the inputs with its key have together. -/
theorem weight_eq_of_mem_gather {weight : α → Nat} (additive : ∀ input a, keyOf a = keyIn input →
      weight (change input a) = weight a + weight (fresh input)) {inputs : List β} {a : α}
    (entry : a ∈ gather keyOf keyIn fresh change inputs) :
    weight a =
      ((inputs.filter fun input => keyIn input = keyOf a).map fun input => weight (fresh input)).sum := by
  -- Only the entries with this key are weighed, and there is only one of them.
  have hsum : ((gather keyOf keyIn fresh change inputs).map fun b =>
      if keyOf b = keyOf a then weight b else 0).sum =
        (inputs.map fun input => if keyIn input = keyOf a then weight (fresh input) else 0).sum := by
    simp only [← keyFresh]
    refine sum_gather (fun input b same => ?_) inputs
    simp only [keyChange, keyFresh, same]
    split
    · exact additive input b same
    · rfl
  rw [List.sum_map_ite, List.sum_map_ite,
    filter_key_eq (nodup_map_gather keyFresh keyChange inputs) entry] at hsum
  simpa using hsum

end Keys

/-- Entries that are known from their keys and from quantities that add up over the inputs. -/
structure AddsUp (keyOf : α → κ) (keyIn : β → κ) (fresh : β → α) (change : β → α → α)
    (weights : List (α → Nat)) : Prop where
  /-- A fresh entry has the key of its input. -/
  keyFresh : ∀ input, keyOf (fresh input) = keyIn input
  /-- A change keeps the key. -/
  keyChange : ∀ input a, keyOf (change input a) = keyOf a
  /-- A change adds to each quantity what a fresh entry would have. -/
  additive : ∀ weight ∈ weights, ∀ input a, keyOf a = keyIn input →
    weight (change input a) = weight a + weight (fresh input)
  /-- There is nothing else to an entry. -/
  determined : ∀ a b, keyOf a = keyOf b → (∀ weight ∈ weights, weight a = weight b) → a = b

namespace AddsUp

variable {weights : List (α → Nat)} (adds : AddsUp keyOf keyIn fresh change weights)

include adds

/-- An entry is what the inputs with its key have together. -/
theorem eq_of_mem_gather {inputs : List β} {a b : α} (entry : a ∈ gather keyOf keyIn fresh change inputs)
    (same : keyOf a = keyOf b) (totals : ∀ weight ∈ weights, weight b =
      ((inputs.filter fun input => keyIn input = keyOf b).map fun input => weight (fresh input)).sum) :
    a = b := by
  refine adds.determined a b same fun weight mem => ?_
  rw [weight_eq_of_mem_gather adds.keyFresh adds.keyChange (adds.additive weight mem) entry, same,
    totals weight mem]

/-- Inputs in another order give no other entries. -/
theorem gather_subset_of_perm {inputs others : List β} (perm : inputs.Perm others) :
    gather keyOf keyIn fresh change inputs ⊆ gather keyOf keyIn fresh change others := by
  intro a entry
  have hkey : keyOf a ∈ (gather keyOf keyIn fresh change others).map keyOf := by
    rw [mem_map_gather adds.keyFresh adds.keyChange, ← (perm.map keyIn).mem_iff,
      ← mem_map_gather adds.keyFresh adds.keyChange]
    exact List.mem_map_of_mem entry
  obtain ⟨b, other, same⟩ := List.mem_map.1 hkey
  obtain rfl : a = b := by
    refine adds.eq_of_mem_gather entry same.symm fun weight mem => ?_
    rw [weight_eq_of_mem_gather adds.keyFresh adds.keyChange (adds.additive weight mem) other]
    exact ((perm.filter _).map _).sum_eq.symm
  exact other

/-- Inputs in another order give the same entries in another order. -/
theorem gather_perm {inputs others : List β} (perm : inputs.Perm others) :
    (gather keyOf keyIn fresh change inputs).Perm (gather keyOf keyIn fresh change others) := by
  have hnodup : ∀ some : List β, (gather keyOf keyIn fresh change some).Nodup :=
    fun some => (nodup_map_gather adds.keyFresh adds.keyChange some).of_map keyOf
  rw [List.perm_ext_iff_of_nodup (hnodup inputs) (hnodup others)]
  intro a
  constructor
  · apply adds.gather_subset_of_perm perm
  · apply adds.gather_subset_of_perm perm.symm

end AddsUp

end Gather

/-! ### Rankings -/

/-- Ordering entries neither loses nor doubles one. -/
theorem descending_perm (measure : α → Nat) (entries : List α) :
    (descending measure entries).Perm entries :=
  List.mergeSort_perm entries _

theorem measure_le_trans (measure : α → Nat) (a b c : α) (hab : decide (measure b ≤ measure a))
    (hbc : decide (measure c ≤ measure b)) : decide (measure c ≤ measure a) :=
  decide_eq_true (Nat.le_trans (of_decide_eq_true hbc) (of_decide_eq_true hab))

theorem measure_le_total (measure : α → Nat) (a b : α) :
    decide (measure b ≤ measure a) || decide (measure a ≤ measure b) := by
  simpa using Nat.le_total (measure b) (measure a)

/-- In a ranking, no entry has more than one in front of it. -/
theorem pairwise_le_descending (measure : α → Nat) (entries : List α) :
    (descending measure entries).Pairwise fun a b => measure b ≤ measure a := by
  have hsorted := List.pairwise_mergeSort (measure_le_trans measure) (measure_le_total measure) entries
  exact hsorted.imp of_decide_eq_true

/-- A limit that was asked for is taken as it is, unless it is zero. -/
theorem limit_of_ne_zero {asked standard : Nat} (given : asked ≠ 0) : limit asked standard = asked :=
  if_neg given

/-- What fits into the number of entries asked for fits into the limit. -/
theorem le_limit {count asked standard : Nat} (enough : count ≤ asked) :
    count ≤ limit asked standard := by
  rw [limit]
  split
  · omega
  · exact enough

section Top

variable {asked standard : Nat} {measure : α → Nat} {entries : List α}

theorem length_top : (top asked standard measure entries).length =
    min (limit asked standard) entries.length := by
  rw [top, List.length_take, (descending_perm measure entries).length_eq]

/-- A ranking has at most what its entries have. -/
theorem sum_top_le (weight : α → Nat) :
    ((top asked standard measure entries).map weight).sum ≤ (entries.map weight).sum := by
  rw [← ((descending_perm measure entries).map weight).sum_eq]
  exact ((List.take_sublist _ _).map weight).sum_le_sum (fun _ _ => Nat.zero_le _)

/-- A ranking that is long enough only reorders its entries. -/
theorem top_perm (enough : entries.length ≤ limit asked standard) :
    (top asked standard measure entries).Perm entries := by
  rw [top, List.take_of_length_le]
  · exact descending_perm measure entries
  · rwa [(descending_perm measure entries).length_eq]

/-- A ranking that is long enough has the same entries, whatever order they are in. -/
theorem top_perm_top {others : List α} (perm : entries.Perm others)
    (enough : entries.length ≤ limit asked standard) :
    (top asked standard measure entries).Perm (top asked standard measure others) :=
  ((top_perm enough).trans perm).trans (top_perm (perm.length_eq ▸ enough)).symm

/-- The measures of a ranking are known from the entries, whatever order they are in. -/
theorem map_descending_eq {others : List α} (perm : entries.Perm others) :
    (descending measure entries).map measure = (descending measure others).map measure := by
  have hsorted : ∀ some : List α,
      ((descending measure some).map measure).Pairwise fun m n => n ≤ m := by
    intro some
    rw [List.pairwise_map]
    exact pairwise_le_descending measure some
  have hperm : ((descending measure entries).map measure).Perm
      ((descending measure others).map measure) :=
    (((descending_perm measure entries).trans perm).trans (descending_perm measure others).symm).map _
  refine hperm.eq_of_pairwise ?_ (hsorted entries) (hsorted others)
  intro m n _ _ hnm hmn
  exact Nat.le_antisymm hmn hnm

/-- The same holds where the ranking is cut off. -/
theorem map_top_eq {others : List α} (perm : entries.Perm others) :
    (top asked standard measure entries).map measure =
      (top asked standard measure others).map measure := by
  rw [top, top, List.map_take, List.map_take, map_descending_eq perm]

end Top

end CodeCensus.Ranking
