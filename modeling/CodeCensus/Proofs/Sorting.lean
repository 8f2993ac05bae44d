import Mathlib.Data.List.Sort

/-!
# Sorting a part of a list

Lists are sorted by merging, which keeps the order of entries that are equal for the comparison.  So the
first entry of a list comes to stand in front of exactly those of the others that it does not have to
let pass (`mergeSort_cons_eq`).  It follows that it makes no difference whether entries are left out
before sorting or after it (`filter_mergeSort`), and that a part of a list is sorted into a part of the
sorted list (`mergeSort_sublist_mergeSort`).

Where a list is sorted that is the same as another one but for its order, the places are taken by entries
that are equal for the comparison (`le_getElem_mergeSort`).  These need not be the same entries: any entry
can be the first of its equals, if it comes first in the list (`exists_getElem?_mergeSort`).  The beginning
of the sorted list is therefore known from the entries just where no two equals of them stand in it
(`take_mergeSort_eq_iff`).
-/

namespace CodeCensus.Sorting

/-- A list is sorted into the order of the comparison. -/
theorem pairwise_mergeSort_decide {α : Type} (le : α → α → Prop) [DecidableRel le]
    (trans : ∀ a b c, le a b → le b c → le a c) (total : ∀ a b, le a b ∨ le b a) (entries : List α) :
    (entries.mergeSort fun a b => le a b).Pairwise le := by
  refine (List.pairwise_mergeSort ?_ ?_ entries).imp of_decide_eq_true
  · intro a b c hab hbc
    exact decide_eq_true (trans a b c (of_decide_eq_true hab) (of_decide_eq_true hbc))
  · intro a b
    simpa using total a b

/-! ### Entries that come first -/

section First

variable {α : Type} {chosen : α → Bool} {entries : List α}

/-- Where the chosen entries come first, they are at the places below their number. -/
theorem chosen_getElem_iff (first : entries.Pairwise fun a b => chosen b → chosen a) {place : Nat}
    (lt : place < entries.length) : chosen entries[place] ↔ place < entries.countP chosen := by
  induction entries generalizing place with
  | nil => exact absurd lt (Nat.not_lt_zero _)
  | cons a entries ih =>
    obtain ⟨hfirst, hrest⟩ := List.pairwise_cons.1 first
    by_cases ha : chosen a
    · rw [List.countP_cons_of_pos ha]
      cases place with
      | zero => simpa using ha
      | succ place =>
        rw [List.getElem_cons_succ, ih hrest, Nat.succ_lt_succ_iff]
    · have hnone : entries.countP chosen = 0 :=
        List.countP_eq_zero.2 fun b mem hb => ha (hfirst b mem hb)
      rw [List.countP_cons_of_neg ha, hnone]
      refine iff_of_false ?_ (Nat.not_lt_zero _)
      rcases List.mem_cons.1 (List.getElem_mem lt) with same | mem
      · rwa [same]
      · exact fun hb => ha (hfirst _ mem hb)

/-- Of the chosen entries, as many are among the first ones as have room there. -/
theorem countP_take (first : entries.Pairwise fun a b => chosen b → chosen a) (count : Nat) :
    (entries.take count).countP chosen = min (entries.countP chosen) count := by
  induction entries generalizing count with
  | nil => simp
  | cons a entries ih =>
    obtain ⟨hfirst, hrest⟩ := List.pairwise_cons.1 first
    cases count with
    | zero => simp
    | succ count =>
      rw [List.take_succ_cons]
      by_cases ha : chosen a
      · rw [List.countP_cons_of_pos ha, List.countP_cons_of_pos ha, ih hrest, Nat.succ_min_succ]
      · have hnone : ∀ b ∈ entries, ¬ chosen b := fun b mem hb => ha (hfirst b mem hb)
        rw [List.countP_cons_of_neg ha, List.countP_cons_of_neg ha, List.countP_eq_zero.2 hnone,
          Nat.zero_min]
        exact List.countP_eq_zero.2 fun b mem => hnone b (List.mem_of_mem_take mem)

end First

/-! ### Parts of a list -/

variable {α : Type} {le : α → α → Bool} (trans : ∀ a b c, le a b → le b c → le a c)
  (total : ∀ a b, le a b || le b a)

include trans total

/-- The first entry of a list stands between the others that it has to let pass and those that it does
not. -/
theorem mergeSort_cons_eq (a : α) (entries : List α) :
    (a :: entries).mergeSort le =
        (entries.mergeSort le).filter (fun b => !le a b) ++
          a :: (entries.mergeSort le).filter (fun b => le a b) ∧
      (entries.mergeSort le).filter (fun b => !le a b) ++
        (entries.mergeSort le).filter (fun b => le a b) = entries.mergeSort le := by
  obtain ⟨before, after, hcons, hentries, hbefore⟩ := List.mergeSort_cons trans total a entries
  have hafter : ∀ b ∈ after, le a b := by
    have sorted := List.pairwise_mergeSort trans total (a :: entries)
    rw [hcons] at sorted
    exact (List.pairwise_cons.1 (List.pairwise_append.1 sorted).2.1).1
  have hpassed : (entries.mergeSort le).filter (fun b => !le a b) = before := by
    have hnone : after.filter (fun b => !le a b) = [] := by
      refine List.filter_eq_nil_iff.2 fun b mem => ?_
      simp [hafter b mem]
    rw [hentries, List.filter_append, hnone, List.filter_eq_self.2 hbefore, List.append_nil]
  have hothers : (entries.mergeSort le).filter (fun b => le a b) = after := by
    have hnone : before.filter (fun b => le a b) = [] := by
      refine List.filter_eq_nil_iff.2 fun b mem => ?_
      simpa using hbefore b mem
    rw [hentries, List.filter_append, hnone, List.filter_eq_self.2 hafter, List.nil_append]
  rw [hpassed, hothers]
  exact ⟨hcons, hentries.symm⟩

/-- Entries may be left out before sorting or after it. -/
theorem filter_mergeSort (keeps : α → Bool) (entries : List α) :
    (entries.mergeSort le).filter keeps = (entries.filter keeps).mergeSort le := by
  induction entries with
  | nil => simp
  | cons a entries ih =>
    have hcomm : ∀ goes : α → Bool, ((entries.mergeSort le).filter goes).filter keeps =
        ((entries.filter keeps).mergeSort le).filter goes := by
      intro goes
      rw [← ih, List.filter_filter, List.filter_filter]
      exact List.filter_congr fun b _ => Bool.and_comm _ _
    obtain ⟨hplace, hsplit⟩ := mergeSort_cons_eq trans total a (entries.filter keeps)
    rw [(mergeSort_cons_eq trans total a entries).1, List.filter_append, hcomm]
    by_cases kept : keeps a
    · rw [List.filter_cons_of_pos kept, List.filter_cons_of_pos kept, hcomm, hplace]
    · rw [List.filter_cons_of_neg kept, List.filter_cons_of_neg kept, hcomm, hsplit]

/-- A part of a list is sorted into a part of the sorted list. -/
theorem mergeSort_sublist_mergeSort {part entries : List α} (sub : part.Sublist entries) :
    (part.mergeSort le).Sublist (entries.mergeSort le) := by
  induction sub with
  | slnil => exact List.Sublist.refl _
  | @cons part entries a _ ih =>
    obtain ⟨hplace, hsplit⟩ := mergeSort_cons_eq trans total a entries
    rw [hplace]
    rw [← hsplit] at ih
    exact ih.trans ((List.sublist_cons_self a _).append_left _)
  | @cons_cons part entries a _ ih =>
    rw [(mergeSort_cons_eq trans total a part).1, (mergeSort_cons_eq trans total a entries).1]
    exact (ih.filter _).append ((ih.filter _).cons_cons a)

/-! ### Lists in another order -/

variable {entries others : List α}

omit trans in
/-- An order that compares any two compares each one with itself. -/
theorem le_self (a : α) : le a a := by
  simpa using total a a

/-- In a sorted list, the entries that have to come before an entry do come first. -/
theorem pairwise_not_le_mergeSort (a : α) (entries : List α) :
    (entries.mergeSort le).Pairwise fun b c => !le a c → !le a b := by
  refine (List.pairwise_mergeSort trans total entries).imp fun {b c} hle hc => ?_
  rw [Bool.not_eq_true'] at hc ⊢
  by_contra hb
  rw [trans a b c (by simpa using hb) hle] at hc
  cases hc

/-- No more entries have to come before an entry than stand in front of it. -/
theorem countP_getElem_mergeSort_le {place : Nat} (lt : place < (entries.mergeSort le).length) :
    entries.countP (!le (entries.mergeSort le)[place] ·) ≤ place := by
  rw [← (List.mergeSort_perm entries le).countP_eq]
  apply Nat.le_of_not_lt
  rw [← chosen_getElem_iff (pairwise_not_le_mergeSort trans total _ entries) lt, le_self total]
  exact Bool.false_ne_true

/-- At each place of two sorted lists that have the same entries, no entry of the one has to come before
that of the other. -/
theorem le_getElem_mergeSort (perm : entries.Perm others) {place : Nat}
    (lt : place < (entries.mergeSort le).length) (lt' : place < (others.mergeSort le).length) :
    le (entries.mergeSort le)[place] (others.mergeSort le)[place] := by
  have hplace : ¬ place < (others.mergeSort le).countP (!le (entries.mergeSort le)[place] ·) := by
    rw [(List.mergeSort_perm others le).countP_eq, ← perm.countP_eq]
    exact (countP_getElem_mergeSort_le trans total lt).not_gt
  rw [← chosen_getElem_iff (pairwise_not_le_mergeSort trans total _ others) lt'] at hplace
  simpa using hplace

/-- An entry that comes first in a list is the first of its equals in the sorted one. -/
theorem exists_getElem?_mergeSort {a : α} (mem : a ∈ entries) :
    ∃ order : List α, order.Perm entries ∧
      (order.mergeSort le)[entries.countP (!le a ·)]? = some a := by
  obtain ⟨before, after, rfl⟩ := List.append_of_mem mem
  have hcount : (before ++ a :: after).countP (!le a ·) =
      (((before ++ after).mergeSort le).filter (!le a ·)).length := by
    rw [← List.countP_eq_length_filter, (List.mergeSort_perm (before ++ after) le).countP_eq,
      List.countP_append, List.countP_append, List.countP_cons_of_neg (by simp [le_self total])]
  refine ⟨a :: (before ++ after), List.perm_middle.symm, ?_⟩
  rw [(mergeSort_cons_eq trans total a _).1, hcount, List.getElem?_append_right le_rfl, Nat.sub_self,
    List.getElem?_cons_zero]

/-- **When the beginning of a sorted list is known.**  It is the same for every order of the entries if
and only if no two of them are equal for the comparison and have fewer entries to come before them than
the beginning has. -/
theorem take_mergeSort_eq_iff (entries : List α) (count : Nat) :
    (∀ order other : List α, order.Perm entries → other.Perm entries →
      (order.mergeSort le).take count = (other.mergeSort le).take count) ↔
    ∀ a ∈ entries, ∀ b ∈ entries, le a b → le b a → entries.countP (!le a ·) < count → a = b := by
  constructor
  · -- Level entries can be brought to the front in either order, so the place that they share has both of them.
    intro same a ha b hb hab hba hlt
    obtain ⟨order, perm, horder⟩ := exists_getElem?_mergeSort trans total ha
    obtain ⟨other, perm', hother⟩ := exists_getElem?_mergeSort trans total hb
    have hcount : entries.countP (!le b ·) = entries.countP (!le a ·) := by
      refine List.countP_congr fun c _ => ?_
      rw [Bool.not_eq_true', Bool.not_eq_true', ← Bool.not_eq_true, ← Bool.not_eq_true, not_iff_not]
      exact ⟨trans a b c hab, trans b a c hba⟩
    have htake := congrArg (·[entries.countP (!le a ·)]?) (same order other perm perm')
    simp only [List.getElem?_take_of_lt hlt] at htake
    rw [horder, ← hcount, hother] at htake
    exact Option.some.inj htake
  · -- At each place that is taken, the two lists have level entries.
    intro clear order other perm perm'
    have hperm : order.Perm other := perm.trans perm'.symm
    apply List.ext_getElem
    · rw [List.length_take, List.length_take, List.length_mergeSort, List.length_mergeSort,
        hperm.length_eq]
    · intro place lt lt'
      rw [List.length_take, Nat.lt_min] at lt lt'
      rw [List.getElem_take, List.getElem_take]
      have hmem : (order.mergeSort le)[place] ∈ entries :=
        perm.mem_iff.1 (List.mem_mergeSort.1 (List.getElem_mem lt.2))
      have hmem' : (other.mergeSort le)[place] ∈ entries :=
        perm'.mem_iff.1 (List.mem_mergeSort.1 (List.getElem_mem lt'.2))
      apply clear _ hmem _ hmem'
      · exact le_getElem_mergeSort trans total hperm lt.2 lt'.2
      · exact le_getElem_mergeSort trans total hperm.symm lt'.2 lt.2
      · rw [← perm.countP_eq]
        exact (countP_getElem_mergeSort_le trans total lt.2).trans_lt lt.1

end CodeCensus.Sorting
