import CodeCensus.Proofs.History.Interrupted
import CodeCensus.Proofs.Sorting
import Mathlib

/-!
# The order of contributors

Contributors are told apart by name and address, but they are listed by the number of their commits and by
name alone.  The table from which the list is made has no order of its own (`Repository.Tabulates`): it is
gone through in an order that the program does not choose (`Enumeration`), and two contributors of one name
with equally many commits come to stand in the order in which they are met there.

So the names and numbers in the list are known from the history, but not always the addresses
(`contributors_determined_iff`).  They are known just where no two namesakes with equally many commits are
reached by the list, that is, where the contributors who have to come before such two fill it.
-/

namespace CodeCensus.History

open Calendar (Instant)

variable {repository : Repository} {table other : List Contributor}

/-! ### Who comes first -/

namespace Contributor

variable {a b c : Contributor}

/-- A contributor comes before another one by more commits, or by a name that is not greater among equally
many. -/
theorem precedes_iff :
    a.precedes b ↔ b.commits < a.commits ∨ b.commits = a.commits ∧ a.name ≤ b.name := by
  simp [precedes]

theorem precedes_trans (a b c : Contributor) (hab : a.precedes b) (hbc : b.precedes c) :
    a.precedes c := by
  rw [precedes_iff] at *
  rcases hab with hab | ⟨hab, hname⟩
  · rcases hbc with hbc | ⟨hbc, -⟩ <;> exact Or.inl (by omega)
  · rcases hbc with hbc | ⟨hbc, hname'⟩
    · exact Or.inl (by omega)
    · exact Or.inr ⟨by omega, hname.trans hname'⟩

theorem precedes_total (a b : Contributor) : a.precedes b || b.precedes a := by
  rw [Bool.or_eq_true, precedes_iff, precedes_iff]
  rcases Nat.lt_trichotomy a.commits b.commits with hlt | heq | hgt
  · exact Or.inr (Or.inl hlt)
  · rcases le_total a.name b.name with hname | hname
    · exact Or.inl (Or.inr ⟨heq.symm, hname⟩)
    · exact Or.inr (Or.inr ⟨heq, hname⟩)
  · exact Or.inl (Or.inl hgt)

/-- Two contributors come before each other if they differ in their addresses only. -/
theorem precedes_both_iff :
    a.precedes b ∧ b.precedes a ↔ a.name = b.name ∧ a.commits = b.commits := by
  rw [precedes_iff, precedes_iff]
  constructor
  · rintro ⟨hab, hba⟩
    have hcommits : a.commits = b.commits := by omega
    rcases hab with hab | ⟨-, hname⟩
    · omega
    · rcases hba with hba | ⟨-, hname'⟩
      · omega
      · exact ⟨le_antisymm hname hname', hcommits⟩
  · rintro ⟨hname, hcommits⟩
    exact ⟨Or.inr ⟨hcommits.symm, hname.le⟩, Or.inr ⟨hcommits, hname.ge⟩⟩

/-- A contributor who has to come before another one has more commits, or as many and a smaller name. -/
theorem not_precedes_iff :
    !a.precedes b ↔ a.commits < b.commits ∨ b.commits = a.commits ∧ b.name < a.name := by
  rw [Bool.not_eq_true', ← Bool.not_eq_true, precedes_iff]
  rcases Nat.lt_trichotomy a.commits b.commits with hlt | heq | hgt
  · refine iff_of_true ?_ (Or.inl hlt)
    omega
  · simp [heq]
  · refine iff_of_false (fun hnone => hnone (Or.inl hgt)) ?_
    omega

end Contributor

/-! ### Tables -/

namespace Repository

/-- A table of contributors has every author of the history once, with the number of their commits.  In
which order they stand is left open. -/
structure Tabulates (repository : Repository) (table : List Contributor) : Prop where
  nodup : (table.map Contributor.identity).Nodup
  mem_iff : ∀ contributor, contributor ∈ table ↔
    contributor.identity ∈ repository.identities ∧
      contributor.commits = (repository.authoredBy contributor.identity).ncard

/-- The authors who have to come before an author: those with more commits, and those with equally many
and a smaller name. -/
def ahead (repository : Repository) (identity : String × String) : Set (String × String) :=
  {other ∈ repository.identities |
    (repository.authoredBy identity).ncard < (repository.authoredBy other).ncard ∨
      (repository.authoredBy other).ncard = (repository.authoredBy identity).ncard ∧ other.1 < identity.1}

/-- Two authors are tied if they have the same name and equally many commits. -/
structure Tied (repository : Repository) (identity other : String × String) : Prop where
  different : identity ≠ other
  author : identity ∈ repository.identities
  author' : other ∈ repository.identities
  name : identity.1 = other.1
  commits : (repository.authoredBy identity).ncard = (repository.authoredBy other).ncard

namespace Tabulates

theorem nodup_table (tabulates : repository.Tabulates table) : table.Nodup :=
  tabulates.nodup.of_map _

/-- Two tables differ in their order only. -/
theorem perm (tabulates : repository.Tabulates table) (otherwise : repository.Tabulates other) :
    table.Perm other := by
  refine (List.perm_ext_iff_of_nodup tabulates.nodup_table otherwise.nodup_table).2 fun contributor => ?_
  rw [tabulates.mem_iff, otherwise.mem_iff]

/-- A table in another order is a table. -/
theorem of_perm (tabulates : repository.Tabulates table) (perm : other.Perm table) :
    repository.Tabulates other := by
  refine ⟨(perm.map _).nodup_iff.2 tabulates.nodup, fun contributor => ?_⟩
  rw [perm.mem_iff, tabulates.mem_iff]

/-- As many contributors of a table have to come before one of them as there are authors who do. -/
theorem countP_eq_ncard (tabulates : repository.Tabulates table) {contributor : Contributor}
    (mem : contributor ∈ table) :
    table.countP (!contributor.precedes ·) = (repository.ahead contributor.identity).ncard := by
  have hcommits := ((tabulates.mem_iff contributor).1 mem).2
  have hset : repository.ahead contributor.identity =
      (((table.filter (!contributor.precedes ·)).map Contributor.identity).toFinset :
        Set (String × String)) := by
    ext identity
    rw [List.coe_toFinset, Set.mem_ofPred_eq, List.mem_map]
    constructor
    · rintro ⟨author, first⟩
      refine ⟨⟨identity.1, identity.2, (repository.authoredBy identity).ncard⟩, ?_, rfl⟩
      rw [List.mem_filter, tabulates.mem_iff, Contributor.not_precedes_iff, hcommits]
      exact ⟨⟨author, rfl⟩, first⟩
    · rintro ⟨one, hone, rfl⟩
      rw [List.mem_filter, tabulates.mem_iff, Contributor.not_precedes_iff, hcommits] at hone
      obtain ⟨⟨author, hauthor⟩, first⟩ := hone
      rw [hauthor] at first
      exact ⟨author, first⟩
  have hnodup : ((table.filter (!contributor.precedes ·)).map Contributor.identity).Nodup :=
    tabulates.nodup.sublist (List.filter_sublist.map _)
  rw [hset, Set.ncard_coe_finset, List.toFinset_card_of_nodup hnodup, List.length_map,
    List.countP_eq_length_filter]

end Tabulates

/-- The contributors behind the commits of a history are a table. -/
theorem Visits.tabulates {commits : List Commit} (visits : repository.Visits commits) :
    repository.Tabulates (contributorsOf commits) := by
  refine ⟨nodup_contributorsOf commits, fun contributor => ?_⟩
  rw [← visits.mem_map_identity, ← mem_map_contributorsOf]
  constructor
  · intro mem
    exact ⟨List.mem_map_of_mem mem, visits.commits_eq_ncard mem⟩
  · rintro ⟨mem, hcontributor⟩
    obtain ⟨one, hone, same⟩ := List.mem_map.1 mem
    have heq : one = contributor := by
      apply Contributor.eq_of_identity_eq same
      rw [visits.commits_eq_ncard hone, same, hcontributor]
    rwa [← heq]

end Repository

/-! ### Lists -/

/-- Which names are listed with which numbers does not depend on the order of the table. -/
theorem map_listed_eq (top : Nat) (perm : table.Perm other) :
    (listed top table).map (fun c => (c.name, c.commits)) =
      (listed top other).map (fun c => (c.name, c.commits)) := by
  apply List.ext_getElem
  · simp only [listed, List.length_map, List.length_take, List.length_mergeSort, perm.length_eq]
  · intro place lt lt'
    simp only [listed, List.length_map, List.length_take, Nat.lt_min] at lt lt'
    simp only [listed, List.getElem_map, List.getElem_take, Prod.mk.injEq]
    apply Contributor.precedes_both_iff.1
    constructor
    · exact Sorting.le_getElem_mergeSort Contributor.precedes_trans Contributor.precedes_total perm _ _
    · exact Sorting.le_getElem_mergeSort Contributor.precedes_trans Contributor.precedes_total perm.symm _ _

/-- All tables of a history give one list if and only if the list is full before it comes to two authors
that are tied. -/
theorem listed_eq_iff (tabulates : repository.Tabulates table) (top : Nat) :
    (∀ order other, repository.Tabulates order → repository.Tabulates other →
      listed top order = listed top other) ↔
    ∀ identity other, repository.Tied identity other →
      Ranking.limit top standardTop ≤ (repository.ahead identity).ncard := by
  have horders : (∀ order other, repository.Tabulates order → repository.Tabulates other →
      listed top order = listed top other) ↔
      ∀ order other : List Contributor, order.Perm table → other.Perm table →
        listed top order = listed top other := by
    constructor
    · exact fun same order other perm perm' => same _ _ (tabulates.of_perm perm) (tabulates.of_perm perm')
    · exact fun same order other hall hall' => same _ _ (hall.perm tabulates) (hall'.perm tabulates)
  rw [horders]
  simp only [listed]
  rw [Sorting.take_mergeSort_eq_iff Contributor.precedes_trans Contributor.precedes_total]
  constructor
  · -- Two tied authors are two entries that come before each other, which a clear list rules out.
    intro clear identity other tied
    apply Nat.le_of_not_lt
    intro reached
    let entry : String × String → Contributor := fun identity =>
      ⟨identity.1, identity.2, (repository.authoredBy identity).ncard⟩
    have hentry : entry identity ∈ table := (tabulates.mem_iff _).2 ⟨tied.author, rfl⟩
    have hentry' : entry other ∈ table := (tabulates.mem_iff _).2 ⟨tied.author', rfl⟩
    obtain ⟨hle, hle'⟩ : (entry identity).precedes (entry other) ∧ (entry other).precedes (entry identity) :=
      Contributor.precedes_both_iff.2 ⟨tied.name, tied.commits⟩
    have hsame : entry identity = entry other := by
      apply clear _ hentry _ hentry' hle hle'
      rwa [tabulates.countP_eq_ncard hentry]
    exact tied.different (congrArg Contributor.identity hsame)
  · intro full a ha b hb hab hba reached
    rw [tabulates.countP_eq_ncard ha] at reached
    obtain ⟨hname, hcommits⟩ := Contributor.precedes_both_iff.1 ⟨hab, hba⟩
    obtain ⟨author, hauthor⟩ := (tabulates.mem_iff a).1 ha
    obtain ⟨author', hauthor'⟩ := (tabulates.mem_iff b).1 hb
    by_contra different
    refine absurd reached (Nat.not_lt_of_le (full a.identity b.identity ?_))
    refine ⟨fun same => ?_, author, author', hname, ?_⟩
    · exact different (Contributor.eq_of_identity_eq same hcommits)
    · rw [← hauthor, ← hauthor', hcommits]

/-! ### The contributors of a summary -/

namespace Repository

/-- The contributors that are listed for a history if the table is gone through in the given order. -/
def contributorsBy (repository : Repository) (enumeration : Enumeration) (top : Nat) (now : Instant) :
    List Contributor :=
  ((repository.enumerated enumeration).summary top now).contributors

/-- The contributors of a history that can be read are listed of one table, in whatever order it is gone
through. -/
theorem exists_contributorsBy_eq (readable : repository.IsReadable) (top : Nat) (now : Instant) :
    ∃ table, repository.Tabulates table ∧ ∀ enumeration,
      repository.contributorsBy enumeration top now = listed top (enumeration.arrange table) := by
  obtain ⟨commits, changes, visits, hsummary⟩ := exists_visits_summary_enumerated readable top now
  refine ⟨contributorsOf commits, visits.tabulates, fun enumeration => ?_⟩
  rw [contributorsBy, hsummary]
  rfl

/-- Where something is lost of the history, nobody is listed. -/
theorem contributorsBy_of_not_readable (lost : ¬ repository.IsReadable) (enumeration : Enumeration)
    (top : Nat) (now : Instant) : repository.contributorsBy enumeration top now = [] := by
  rw [← isReadable_enumerated enumeration] at lost
  obtain ⟨count, hsummary⟩ := summary_of_not_readable lost top now
  rw [contributorsBy, hsummary]

end Repository

/-- The enumeration that has the contributors of a table in the order of the table. -/
noncomputable def enumerationOf (table : List Contributor) : Enumeration :=
  open Classical in
  { arrange := fun contributors => if table.Perm contributors then table else contributors
    perm := fun contributors => by
      split
      · next perm => exact perm
      · exact .refl contributors }

/-- Any order of a table is that of an enumeration. -/
theorem arrange_enumerationOf (perm : table.Perm other) : (enumerationOf table).arrange other = table :=
  if_pos perm

/-- **When the contributors are determined.**  The contributors of a history are listed of a table that
can be gone through in any order, and every order of its authors is that of an enumeration.  Whatever this
order is, the list has the same names with the same numbers of commits.  It has the same addresses, and so
is one list for all orders, if and only if no two authors of one name with equally many commits are reached
by it: those who have to come before them fill the list. -/
theorem contributors_determined_iff (repository : Repository) (top : Nat) (now : Instant) :
    (¬ repository.IsReadable → ∀ enumeration, repository.contributorsBy enumeration top now = []) ∧
    (repository.IsReadable →
      (∀ enumeration, ∃ table, repository.Tabulates table ∧
        repository.contributorsBy enumeration top now = listed top table) ∧
      (∀ table, repository.Tabulates table → ∃ enumeration,
        repository.contributorsBy enumeration top now = listed top table) ∧
      (∀ enumeration other,
        (repository.contributorsBy enumeration top now).map (fun c => (c.name, c.commits)) =
          (repository.contributorsBy other top now).map (fun c => (c.name, c.commits))) ∧
      ((∀ enumeration other,
          repository.contributorsBy enumeration top now = repository.contributorsBy other top now) ↔
        ∀ identity other, repository.Tied identity other →
          Ranking.limit top standardTop ≤ (repository.ahead identity).ncard)) := by
  refine ⟨fun lost enumeration => repository.contributorsBy_of_not_readable lost enumeration top now,
    fun readable => ?_⟩
  obtain ⟨met, tabulates, hlisted⟩ := repository.exists_contributorsBy_eq readable top now
  have hone : ∀ enumeration : Enumeration, repository.Tabulates (enumeration.arrange met) :=
    fun enumeration => tabulates.of_perm (enumeration.perm met)
  have hevery : ∀ table, repository.Tabulates table → ∃ enumeration,
      repository.contributorsBy enumeration top now = listed top table := by
    intro table hall
    refine ⟨enumerationOf table, ?_⟩
    rw [hlisted, arrange_enumerationOf (hall.perm tabulates)]
  refine ⟨fun enumeration => ⟨_, hone enumeration, hlisted enumeration⟩, hevery, ?_, ?_⟩
  · intro enumeration other
    rw [hlisted, hlisted]
    exact map_listed_eq top ((hone enumeration).perm (hone other))
  · -- Every table is the order of an enumeration, so both speak of the same lists.
    rw [← listed_eq_iff tabulates top]
    constructor
    · intro same table other hall hall'
      obtain ⟨first, hfirst⟩ := hevery table hall
      obtain ⟨second, hsecond⟩ := hevery other hall'
      rw [← hfirst, ← hsecond, same]
    · intro same enumeration other
      rw [hlisted, hlisted]
      exact same _ _ (hone enumeration) (hone other)

/-- A history of four commits by three authors.  Bo made two of them, and two persons by the name of Ada
one each. -/
def namesakes : Repository where
  commits :=
    let bo : Person := ⟨[0x42, 0x6F], [0x62]⟩
    let ada : UInt8 → Person := fun address => ⟨[0x41, 0x64, 0x61], [address]⟩
    [("fourth", ⟨⟨bo, 400⟩, ⟨bo, 400⟩, ["third"], some []⟩),
      ("third", ⟨⟨ada 0x79, 300⟩, ⟨ada 0x79, 300⟩, ["second"], some []⟩),
      ("second", ⟨⟨ada 0x78, 200⟩, ⟨ada 0x78, 200⟩, ["first"], some []⟩),
      ("first", ⟨⟨bo, 100⟩, ⟨bo, 100⟩, [], some []⟩)]
  head? := some "fourth"

/-- The commits of this history, last one first. -/
def namesakesWalk : List Commit :=
  (namesakes.walk?).getD []

/-- Their authors in the order in which they are met. -/
def namesakesTable : List Contributor :=
  [⟨"Bo", "b", 2⟩, ⟨"Ada", "y", 1⟩, ⟨"Ada", "x", 1⟩]

theorem walk?_namesakes : namesakes.walk? = some namesakesWalk := by
  cbv

/-- Its authors are Bo and two who are called Ada. -/
theorem tabulates_namesakes : namesakes.Tabulates namesakesTable := by
  have htable : contributorsOf namesakesWalk = namesakesTable := by cbv
  rw [← htable]
  exact (Repository.walk?_visits walk?_namesakes).tabulates

/-- The two are tied, with one commit each. -/
theorem tied_namesakes : namesakes.Tied ("Ada", "x") ("Ada", "y") := by
  obtain ⟨author, hcommits⟩ := (tabulates_namesakes.mem_iff ⟨"Ada", "x", 1⟩).1 (by decide)
  obtain ⟨author', hcommits'⟩ := (tabulates_namesakes.mem_iff ⟨"Ada", "y", 1⟩).1 (by decide)
  exact ⟨by decide, author, author', rfl, hcommits.symm.trans hcommits'⟩

/-- A list of two contributors reaches the namesakes after Bo, and so it depends on the order of the
table. -/
theorem contributors_determined_iff_namesakes :
    namesakes.IsReadable ∧ namesakes.Tied ("Ada", "x") ("Ada", "y") ∧
      (namesakes.ahead ("Ada", "x")).ncard = 1 ∧
      ¬ ∀ enumeration other, namesakes.contributorsBy enumeration 2 ((0 : Int) : Instant) =
        namesakes.contributorsBy other 2 ((0 : Int) : Instant) := by
  have readable : namesakes.IsReadable := by
    refine (Repository.isReadable_iff rfl).2 ⟨_, walk?_namesakes, ?_⟩
    cbv
  have hahead : (namesakes.ahead ("Ada", "x")).ncard = 1 := by
    have hada : (⟨"Ada", "x", 1⟩ : Contributor) ∈ namesakesTable := by decide
    exact (tabulates_namesakes.countP_eq_ncard hada).symm.trans (by decide)
  obtain ⟨-, determined⟩ := contributors_determined_iff namesakes 2 ((0 : Int) : Instant)
  refine ⟨readable, tied_namesakes, hahead, fun same => ?_⟩
  have hfull := (determined readable).2.2.2.1 same _ _ tied_namesakes
  rw [hahead] at hfull
  exact absurd hfull (by decide)

/-- The contributors are taken in the order against that in which they are met. -/
def Enumeration.reversed : Enumeration where
  arrange := List.reverse
  perm := List.reverse_perm

/-- Of two namesakes, the one who stands in front of the other in the table is listed and the other one is
cut off; so the list is not the same for every order. -/
theorem not_listed_namesakes :
    namesakes.contributorsBy .asMet 2 ((0 : Int) : Instant) = [⟨"Bo", "b", 2⟩, ⟨"Ada", "y", 1⟩] ∧
      namesakes.contributorsBy .reversed 2 ((0 : Int) : Instant) = [⟨"Bo", "b", 2⟩, ⟨"Ada", "x", 1⟩] ∧
      ¬ ∀ enumeration other, namesakes.contributorsBy enumeration 2 ((0 : Int) : Instant) =
        namesakes.contributorsBy other 2 ((0 : Int) : Instant) := by
  have hmet : namesakes.contributorsBy .asMet 2 ((0 : Int) : Instant) =
      [⟨"Bo", "b", 2⟩, ⟨"Ada", "y", 1⟩] := by cbv
  have hreversed : namesakes.contributorsBy .reversed 2 ((0 : Int) : Instant) =
      [⟨"Bo", "b", 2⟩, ⟨"Ada", "x", 1⟩] := by cbv
  refine ⟨hmet, hreversed, fun same => ?_⟩
  have hsame := same .asMet .reversed
  rw [hmet, hreversed] at hsame
  exact absurd hsame (by decide)

end CodeCensus.History
