import CodeCensus.Dictionary
import Mathlib.Data.List.Nodup
import Mathlib.Data.String.Basic

/-!
# Dictionaries

What a list has under a key (`List.lookup`), and what a dictionary made from a list of entries has under a
key: the value of the last entry with this key.  A dictionary has its keys in strictly ascending order.
-/

namespace CodeCensus.Dictionary

/-! ### Looking up -/

section Lookup

variable {κ α : Type} [BEq κ] [LawfulBEq κ] {entries : List (κ × α)} {key : κ} {value : α}

theorem lookup_cons_eq_ite [DecidableEq κ] {k : κ} :
    ((k, value) :: entries).lookup key = if key = k then some value else entries.lookup key := by
  rw [List.lookup_cons]
  split
  · next same => rw [if_pos (eq_of_beq same)]
  · next different => rw [if_neg (by simpa using different)]

/-- Nothing is found under a key if and only if no entry has it. -/
theorem lookup_eq_none_iff_notMem : entries.lookup key = none ↔ key ∉ entries.map Prod.fst := by
  rw [List.lookup_eq_none_iff, List.mem_map]
  constructor
  · rintro none ⟨entry, mem, rfl⟩
    simpa using none entry mem
  · intro none entry mem
    simpa using fun same => none ⟨entry, mem, Eq.symm same⟩

/-- If no key stands twice, the value under a key is that of the one entry with this key. -/
theorem lookup_eq_some_iff_mem (nodup : (entries.map Prod.fst).Nodup) :
    entries.lookup key = some value ↔ (key, value) ∈ entries := by
  constructor
  · intro found
    obtain ⟨before, after, rfl, -⟩ := List.lookup_eq_some_iff.1 found
    exact List.mem_append_right before List.mem_cons_self
  · intro mem
    obtain ⟨before, after, rfl⟩ := List.append_of_mem mem
    refine List.lookup_eq_some_iff.2 ⟨before, after, rfl, fun entry hentry => ?_⟩
    rw [List.map_append, List.map_cons, List.nodup_append] at nodup
    have hne := nodup.2.2 entry.1 (List.mem_map_of_mem hentry) key List.mem_cons_self
    simpa using hne.symm

end Lookup

/-! ### Entries in key order -/

variable {α β : Type} {entries dictionary : List (String × α)} {key name : String} {value : α}

/-- The keys stand in strictly ascending order. -/
def IsOrdered (dictionary : List (String × α)) : Prop :=
  dictionary.Pairwise fun a b => a.1 < b.1

/-- A dictionary has no key twice. -/
theorem IsOrdered.nodup (ordered : IsOrdered dictionary) : (dictionary.map Prod.fst).Nodup :=
  List.pairwise_map.2 (ordered.imp fun lt => ne_of_lt lt)

/-- In a dictionary, an entry is what is found under its key. -/
theorem IsOrdered.mem_iff (ordered : IsOrdered dictionary) :
    (key, value) ∈ dictionary ↔ dictionary.lookup key = some value :=
  (lookup_eq_some_iff_mem ordered.nodup).symm

/-- A key that is put into a dictionary is the only new one. -/
theorem mem_insert {entry : String × α} (mem : entry ∈ insert key value dictionary) :
    entry = (key, value) ∨ entry ∈ dictionary := by
  induction dictionary with
  | nil => exact Or.inl (List.mem_singleton.1 mem)
  | cons first rest ih =>
    obtain ⟨k, old⟩ := first
    rw [insert] at mem
    split at mem
    · exact List.mem_cons.1 mem
    · split at mem
      · exact (List.mem_cons.1 mem).imp_right (List.mem_cons_of_mem _)
      · rcases List.mem_cons.1 mem with rfl | later
        · exact Or.inr List.mem_cons_self
        · exact (ih later).imp_right (List.mem_cons_of_mem _)

/-- A dictionary stays one when an entry is put in. -/
theorem isOrdered_insert (ordered : IsOrdered dictionary) : IsOrdered (insert key value dictionary) := by
  induction dictionary with
  | nil => exact List.pairwise_singleton _ _
  | cons first rest ih =>
    obtain ⟨k, old⟩ := first
    obtain ⟨above, restOrdered⟩ := List.pairwise_cons.1 ordered
    rw [insert]
    split
    · next lt =>
      refine List.pairwise_cons.2 ⟨?_, ordered⟩
      rintro entry (- | ⟨-, later⟩)
      · exact lt
      · exact lt.trans (above entry later)
    · next notLt =>
      split
      · next same =>
        subst same
        exact List.pairwise_cons.2 ⟨above, restOrdered⟩
      · next different =>
        refine List.pairwise_cons.2 ⟨fun entry mem => ?_, ih restOrdered⟩
        rcases mem_insert mem with rfl | later
        · exact lt_of_le_of_ne (not_lt.1 notLt) (Ne.symm different)
        · exact above entry later

/-- An entry that is put in is found under its key, and everything else as before. -/
theorem lookup_insert :
    (insert key value dictionary).lookup name = if name = key then some value else dictionary.lookup name := by
  induction dictionary with
  | nil => exact lookup_cons_eq_ite
  | cons first rest ih =>
    obtain ⟨k, old⟩ := first
    rw [insert]
    split
    · exact lookup_cons_eq_ite
    · split
      · next replaced =>
        subst replaced
        rw [lookup_cons_eq_ite, lookup_cons_eq_ite]
        split <;> rfl
      · next different =>
        rw [lookup_cons_eq_ite, lookup_cons_eq_ite, ih]
        by_cases same : name = k
        · subst same
          rw [if_pos rfl, if_pos rfl, if_neg (Ne.symm different)]
        · rw [if_neg same, if_neg same]

/-! ### Dictionaries of lists -/

/-- A dictionary comes out of any entries, whatever their order and however often a key is among them. -/
theorem isOrdered_ofList (entries : List (String × α)) : IsOrdered (ofList entries) :=
  List.foldlRecOn entries _ .nil fun _ ordered _ _ => isOrdered_insert ordered

/-- A dictionary has under each key what the list has when it is read from its end. -/
theorem lookup_ofList (entries : List (String × α)) :
    (ofList entries).lookup name = entries.reverse.lookup name := by
  have hfoldr : ∀ entries : List (String × α),
      (entries.foldr (fun entry => insert entry.1 entry.2) []).lookup name = entries.lookup name := by
    intro entries
    induction entries with
    | nil => rfl
    | cons entry rest ih => rw [List.foldr_cons, lookup_insert, ih, ← lookup_cons_eq_ite]
  rw [ofList, List.foldl_eq_foldr_reverse]
  exact hfoldr entries.reverse

/-- A value is the last one under a key. -/
def LastUnder (entries : List (String × α)) (key : String) (value : α) : Prop :=
  ∃ before after, entries = before ++ (key, value) :: after ∧ key ∉ after.map Prod.fst

/-- The last value under a key is one of the entries. -/
theorem LastUnder.mem (last : LastUnder entries key value) : (key, value) ∈ entries := by
  obtain ⟨before, after, rfl, -⟩ := last
  exact List.mem_append_right before List.mem_cons_self

/-- A dictionary has the last one of the values under each key. -/
theorem mem_ofList_iff : (key, value) ∈ ofList entries ↔ LastUnder entries key value := by
  rw [(isOrdered_ofList entries).mem_iff, lookup_ofList, List.lookup_eq_some_iff]
  constructor
  · rintro ⟨before, after, split, none⟩
    refine ⟨after.reverse, before.reverse, ?_, ?_⟩
    · rw [← List.reverse_inj, split]
      simp
    · rw [List.map_reverse, List.mem_reverse, ← lookup_eq_none_iff_notMem]
      exact List.lookup_eq_none_iff.2 none
  · rintro ⟨before, after, rfl, none⟩
    refine ⟨after.reverse, before.reverse, by simp, List.lookup_eq_none_iff.1 ?_⟩
    rwa [lookup_eq_none_iff_notMem, List.map_reverse, List.mem_reverse]

/-- The last one of some values stays the last one when all values are replaced. -/
theorem lastUnder_map_iff {f : α → β} {other : β} :
    LastUnder (entries.map fun entry => (entry.1, f entry.2)) key other ↔
      ∃ value, LastUnder entries key value ∧ f value = other := by
  have hkeys : ∀ after : List (String × α),
      (after.map fun entry => (entry.1, f entry.2)).map Prod.fst = after.map Prod.fst := by
    intro after
    rw [List.map_map]
    rfl
  constructor
  · rintro ⟨before, after, split, none⟩
    obtain ⟨front, back, rfl, rfl, hback⟩ := List.map_eq_append_iff.1 split
    obtain ⟨⟨name, value⟩, rest, rfl, same, rfl⟩ := List.map_eq_cons_iff.1 hback
    cases same
    rw [hkeys] at none
    exact ⟨value, ⟨front, rest, rfl, none⟩, rfl⟩
  · rintro ⟨value, ⟨before, after, rfl, none⟩, rfl⟩
    refine ⟨_, _, List.map_append, ?_⟩
    rwa [hkeys]

end CodeCensus.Dictionary
