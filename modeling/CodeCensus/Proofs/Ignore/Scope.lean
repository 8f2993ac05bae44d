import CodeCensus.Proofs.Ignore.Precedence
import Mathlib.Data.List.Infix
import Mathlib.Data.List.Pairwise

/-!
# Where rules count

Which rules count for the entries of a directory is said here without layers.  A rule stands in the file of
some kind that counts from some directory (`rulesFrom`).  The files of the program and those that search
tools share count for everything below their directory.  The files of repositories and clones count up to
the next repository on the way down, as far as the search sees one (`Reaches`).  The file of the user counts
everywhere.

The layers of a search have just these rules (`mem_rulesInForce_iff`), and have them in the order in which
one rule outranks another (`pairwise_rulesInForce`).  So the rule that is found in them is the one that
decides (`deciding?_eq_some_iff`): it is in force and about the entry, and outranks all others that are.
-/

namespace CodeCensus.Ignore

open FileSystem (Disk Place)

variable {disk : Disk} {root here place directory : Place} {kind : Kind} {isDirectory : Bool}

/-! ### Rules that are in force -/

/-- The path of the file of a kind that counts from a directory, if there is one. -/
def fileFrom? (disk : Disk) (kind : Kind) (directory : Place) : Option Path :=
  match kind with
  | .user => (disk.userIgnore?.filter (·.base = directory)).map (·.file)
  | kind => kind.path? disk (FileSystem.pathOf directory)

/-- The rules of a kind that count from a directory. -/
def rulesFrom (disk : Disk) (kind : Kind) (directory : Place) : List Rule :=
  rulesAt disk (fileFrom? disk kind directory)

/-- Whether a directory is the top of a repository. -/
def IsTop (disk : Disk) (directory : Place) : Prop :=
  ∃ name ∈ repositoryMarks, disk.exists? ((FileSystem.pathOf directory).join (.ofString name))

/-- Whether the rules of a kind that count from a directory reach the entries of another directory, in a
search from a root.  Those of repositories and clones do not reach into a repository that the search has
entered, or has begun in, from outside. -/
def Reaches (disk : Disk) (root here : Place) (kind : Kind) (directory : Place) : Prop :=
  match kind with
  | .own | .shared => directory <+: here
  | .repository | .clone =>
    directory <+: here ∧ ∀ top, IsTop disk top → root <+: top → top <+: here → top <+: directory
  | .user => True

/-- The place of a kind among all kinds, in the order in which they count. -/
def Kind.rank : Kind → Nat
  | own => 0
  | shared => 1
  | repository => 2
  | clone => 3
  | user => 4

namespace WrittenRule

/-- A rule is in force for the entries of a directory if it stands where its file says and is reached. -/
structure InForce (disk : Disk) (root here : Place) (written : WrittenRule) : Prop where
  stands : (rulesFrom disk written.kind written.directory)[written.number]? = some written.rule
  reaches : Reaches disk root here written.kind written.directory

/-- Of two rules, the one of the kind that counts more outranks the other one; of two rules of one kind, the
one of the inner directory; and of two rules of one file, the later one. -/
def Outranks (a b : WrittenRule) : Prop :=
  a.kind.rank < b.kind.rank ∨ a.kind = b.kind ∧
    (b.directory.length < a.directory.length ∨ a.directory = b.directory ∧ b.number < a.number)

/-- A rule decides on an entry of a directory if it is in force there and about the entry, and outranks every
other such rule. -/
structure Decides (disk : Disk) (root here place : Place) (isDirectory : Bool) (written : WrittenRule) :
    Prop where
  inForce : written.InForce disk root here
  fits : written.fits place isDirectory
  first : ∀ other : WrittenRule, other.InForce disk root here → other.fits place isDirectory →
    other = written ∨ written.Outranks other

theorem Outranks.asymm {a b : WrittenRule} (first : a.Outranks b) : ¬ b.Outranks a := by
  unfold Outranks at *
  rcases first with lt | ⟨same, lt | ⟨same', lt⟩⟩
  · rintro (gt | ⟨same, -⟩)
    · omega
    · rw [same] at lt
      omega
  · rintro (gt | ⟨-, gt | ⟨same', -⟩⟩)
    · rw [same] at gt
      omega
    · omega
    · rw [same'] at lt
      omega
  · rintro (gt | ⟨-, gt | ⟨-, gt⟩⟩)
    · rw [same] at gt
      omega
    · rw [same'] at gt
      omega
    · omega

end WrittenRule

/-! ### The layers of a search -/

/-- The layer of a directory in a search from a root, which takes the directories around its root for
open. -/
def layerFor (disk : Disk) (root directory : Place) : Layer :=
  { Layer.ofDirectory disk directory with
    closed := root.isPrefixOf directory && (Layer.ofDirectory disk directory).closed }

/-- The layers of a directory and of all directories around it. -/
def layersAround (disk : Disk) (root here : Place) : List Layer :=
  (List.range (here.length + 1)).reverse.map fun depth => layerFor disk root (here.take depth)

/-- The layers that are in force in a directory, which is given by the names that lead to it from a root. -/
def layersIn (disk : Disk) (root : Place) (inner : List FileName) : List Layer :=
  layersAround disk root (root ++ inner) ++ (disk.userIgnore?.map (.ofUser disk)).toList

/-- From the root of the walk on, the layer of a directory is what stands in it. -/
theorem layerFor_of_prefix (below : root <+: directory) :
    layerFor disk root directory = .ofDirectory disk directory := by
  rw [layerFor, List.isPrefixOf_iff_prefix.2 below, Bool.true_and]

/-- One directory further down, one layer comes in front of those around. -/
theorem layersAround_concat (name : FileName) : layersAround disk root (here ++ [name]) =
    layerFor disk root (here ++ [name]) :: layersAround disk root here := by
  unfold layersAround
  rw [List.length_append, List.length_singleton, List.range_succ, List.reverse_concat, List.map_cons]
  congr 1
  · rw [List.take_of_length_le (by simp)]
  · refine List.map_congr_left fun depth mem => ?_
    rw [List.mem_reverse, List.mem_range] at mem
    rw [List.take_append_of_le_length (by omega)]

theorem layersIn_nil : layersIn disk root [] = layersAt disk root := by
  unfold layersIn layersAround layersAt
  rw [List.append_nil, List.range_succ, List.reverse_concat, List.map_cons, List.take_length,
    layerFor_of_prefix (List.prefix_refl root)]
  congr 2
  refine List.map_congr_left fun depth mem => ?_
  rw [List.mem_reverse, List.mem_range] at mem
  -- A directory around the root has fewer names.
  have outside : root.isPrefixOf (root.take depth) = false := by
    rw [Bool.eq_false_iff, ne_eq, List.isPrefixOf_iff_prefix]
    intro below
    have hle := below.length_le
    rw [List.length_take] at hle
    omega
  rw [layerFor, outside, Bool.false_and]

/-- Below the root of the walk, every directory on the way has its layer, the inner ones in front. -/
theorem layersIn_concat (inner : List FileName) (name : FileName) :
    layersIn disk root (inner ++ [name]) =
      .ofDirectory disk (root ++ (inner ++ [name])) :: layersIn disk root inner := by
  unfold layersIn
  rw [← layerFor_of_prefix (List.prefix_append root (inner ++ [name])), ← List.append_assoc,
    layersAround_concat, List.cons_append]

/-- There is a layer for each directory on the way from the root of the disk. -/
theorem mem_layersAround_iff {layer : Layer} : layer ∈ layersAround disk root here ↔
    ∃ directory, directory <+: here ∧ layerFor disk root directory = layer := by
  unfold layersAround
  simp only [List.mem_map, List.mem_reverse, List.mem_range]
  constructor
  · rintro ⟨depth, -, rfl⟩
    exact ⟨_, List.take_prefix depth here, rfl⟩
  · rintro ⟨directory, around, rfl⟩
    refine ⟨directory.length, ?_, ?_⟩
    · have := around.length_le
      omega
    · rw [← List.prefix_iff_eq_take.1 around]

/-- The layers go from the inside to the outside. -/
theorem pairwise_layersAround : (layersAround disk root here).Pairwise fun inner outer =>
    outer.directory.length < inner.directory.length := by
  unfold layersAround
  rw [List.pairwise_map, List.pairwise_reverse]
  refine List.pairwise_lt_range.imp_of_mem fun {a b} ha hb lt => ?_
  rw [List.mem_range] at ha hb
  change (here.take a).length < (here.take b).length
  rw [List.length_take, List.length_take]
  omega

/-! ### The rules of layers -/

/-- The layer of a directory has the rules of the file of each kind in it. -/
theorem layerFor_rules (noUser : kind ≠ .user) :
    (layerFor disk root directory).rules kind = rulesFrom disk kind directory := by
  cases kind with
  | user => exact absurd rfl noUser
  | own | shared | repository | clone => rfl

/-- But never those of the user, which stand in no directory of the project. -/
theorem layerFor_rules_user : (layerFor disk root directory).rules .user = [] :=
  rfl

/-- A layer is closed where a repository begins below the root of the walk. -/
theorem layerFor_closed_iff : (layerFor disk root directory).closed ↔
    root <+: directory ∧ IsTop disk directory := by
  rw [layerFor, Bool.and_eq_true, List.isPrefixOf_iff_prefix]
  exact and_congr_right fun _ => List.any_eq_true

/-- The layers that belong to one repository are those that no closed layer is inside of. -/
theorem mem_inRepository_iff {layers more : List Layer} {layer : Layer}
    (sorted : layers.Pairwise fun inner outer => outer.directory.length < inner.directory.length)
    (mem : layer ∈ layers) : layer ∈ inRepository (layers ++ more) ↔
      ∀ other ∈ layers, layer.directory.length < other.directory.length → ¬ other.closed := by
  induction layers with
  | nil => exact absurd mem List.not_mem_nil
  | cons first rest ih =>
    obtain ⟨inside, sortedRest⟩ := List.pairwise_cons.1 sorted
    rw [List.cons_append, inRepository, List.forall_mem_cons]
    rcases List.mem_cons.1 mem with rfl | later
    · refine iff_of_true (by split <;> simp) ⟨fun lt => absurd lt (lt_irrefl _), ?_⟩
      exact fun other hother lt => absurd lt (lt_asymm (inside other hother))
    · have ne : layer ≠ first := by
        rintro rfl
        exact lt_irrefl _ (inside layer later)
      split
      · next closed => simp [ne, inside layer later, closed]
      · next isOpen => simp [ne, isOpen, ih sortedRest later]

/-- The layers of a repository are some of all layers, in their order. -/
theorem inRepository_sublist (layers : List Layer) : (inRepository layers).Sublist layers := by
  induction layers with
  | nil => exact .slnil
  | cons first rest ih =>
    rw [inRepository]
    split
    · exact (List.nil_sublist rest).cons_cons first
    · exact ih.cons_cons first

/-- A layer around a directory belongs to its repository if no repository begins further inside. -/
theorem layerFor_mem_inRepository_iff {more : List Layer} (around : directory <+: here) :
    layerFor disk root directory ∈ inRepository (layersAround disk root here ++ more) ↔
      ∀ top, IsTop disk top → root <+: top → top <+: here → top <+: directory := by
  rw [mem_inRepository_iff pairwise_layersAround (mem_layersAround_iff.2 ⟨_, around, rfl⟩)]
  simp only [mem_layersAround_iff, forall_exists_index, and_imp, forall_apply_eq_imp_iff₂,
    layerFor_closed_iff, not_and]
  constructor
  · intro none top isTop below within
    refine List.prefix_of_prefix_length_le within around (Nat.le_of_not_lt fun lt => ?_)
    exact none top within lt below isTop
  · intro all top within lt below isTop
    exact absurd (all top isTop below within).length_le (Nat.not_le_of_lt lt)

/-! ### The rules of a search -/

/-- A layer has the lines of its file as rules, each with its number. -/
theorem mem_ofLayer_iff {layer : Layer} {written : WrittenRule} :
    written ∈ WrittenRule.ofLayer kind layer ↔ written.kind = kind ∧ written.directory = layer.directory ∧
      (layer.rules kind)[written.number]? = some written.rule := by
  obtain ⟨kind', directory, number, rule⟩ := written
  simp only [WrittenRule.ofLayer, List.mem_map, List.mem_reverse, Prod.exists,
    List.mem_zipIdx_iff_getElem?, WrittenRule.mk.injEq]
  grind

/-- A rule is in force if it is that of a layer, and of the repository where rules of its kind end with it.
-/
theorem mem_rulesInForce {layers : List Layer} {written : WrittenRule} :
    written ∈ rulesInForce layers ↔
      ∃ layer ∈ if written.kind.isLocal then inRepository layers else layers,
        written ∈ WrittenRule.ofLayer written.kind layer := by
  unfold rulesInForce
  simp only [List.mem_flatMap]
  constructor
  · rintro ⟨kind, -, layer, mem, hwritten⟩
    obtain ⟨rfl, -⟩ := mem_ofLayer_iff.1 hwritten
    exact ⟨layer, mem, hwritten⟩
  · rintro ⟨layer, mem, hwritten⟩
    exact ⟨written.kind, by cases written.kind <;> decide, layer, mem, hwritten⟩

section

variable {inner : List FileName} {layer : Layer} {layers : List Layer} {written : WrittenRule}

/-- The rules of the files in directories come from the layers around the entry. -/
theorem exists_mem_ofLayer_iff (noUser : written.kind ≠ .user)
    (sub : layers ⊆ layersIn disk root inner) :
    (∃ layer ∈ layers, written ∈ WrittenRule.ofLayer written.kind layer) ↔
      written.directory <+: root ++ inner ∧ layerFor disk root written.directory ∈ layers ∧
        (rulesFrom disk written.kind written.directory)[written.number]? = some written.rule := by
  simp only [mem_ofLayer_iff, true_and]
  constructor
  · rintro ⟨layer, mem, same, stands⟩
    rcases List.mem_append.1 (sub mem) with around | user
    · obtain ⟨directory, hdirectory, rfl⟩ := mem_layersAround_iff.1 around
      rw [layerFor_rules noUser] at stands
      obtain rfl : written.directory = directory := same
      exact ⟨hdirectory, mem, stands⟩
    · -- The layer of the user has no other rules.
      obtain ⟨userIgnore, -, rfl⟩ := List.mem_map.1 (Option.toList_map .. ▸ user)
      have hnone : (Layer.ofUser disk userIgnore).rules written.kind = [] := by
        cases hkind : written.kind with
        | user => exact absurd hkind noUser
        | own | shared | repository | clone => rfl
      rw [hnone] at stands
      cases stands
  · rintro ⟨-, mem, stands⟩
    refine ⟨_, mem, rfl, ?_⟩
    rwa [layerFor_rules noUser]

/-- The rules of the user come from the layer of the user. -/
theorem exists_mem_ofLayer_user_iff (isUser : written.kind = .user) :
    (∃ layer ∈ layersIn disk root inner, written ∈ WrittenRule.ofLayer written.kind layer) ↔
      (rulesFrom disk .user written.directory)[written.number]? = some written.rule := by
  simp only [mem_ofLayer_iff, isUser, true_and]
  constructor
  · rintro ⟨layer, mem, same, stands⟩
    rcases List.mem_append.1 mem with around | user
    · obtain ⟨directory, -, rfl⟩ := mem_layersAround_iff.1 around
      rw [layerFor_rules_user] at stands
      cases stands
    · cases huser : disk.userIgnore? with
      | none => simp [huser] at user
      | some userIgnore =>
        obtain rfl : layer = .ofUser disk userIgnore := by simpa [huser] using user
        have hfile : fileFrom? disk .user userIgnore.base = some userIgnore.file := by
          simp [fileFrom?, huser]
        rw [same]
        exact (congrArg (fun path? => (rulesAt disk path?)[written.number]?) hfile).trans stands
  · intro stands
    -- The only directory that has a file of this kind is the one that the rules of the user are about.
    cases hfile : fileFrom? disk .user written.directory with
    | none =>
      rw [rulesFrom, hfile] at stands
      cases stands
    | some path =>
      rw [rulesFrom, hfile] at stands
      obtain ⟨userIgnore, hfilter, rfl⟩ := Option.map_eq_some_iff.1 hfile
      obtain ⟨huser, same⟩ := Option.filter_eq_some_iff.1 hfilter
      refine ⟨.ofUser disk userIgnore, List.mem_append_right _ ?_, ?_, stands⟩
      · simp [huser]
      · exact (of_decide_eq_true same).symm

end

/-- The rules in force are those of the files that reach a directory. -/
theorem mem_rulesInForce_iff {inner : List FileName} {written : WrittenRule} :
    written ∈ rulesInForce (layersIn disk root inner) ↔ written.InForce disk root (root ++ inner) := by
  have hinForce : written.InForce disk root (root ++ inner) ↔
      (rulesFrom disk written.kind written.directory)[written.number]? = some written.rule ∧
        Reaches disk root (root ++ inner) written.kind written.directory :=
    ⟨fun ⟨stands, reaches⟩ => ⟨stands, reaches⟩, fun ⟨stands, reaches⟩ => ⟨stands, reaches⟩⟩
  rw [mem_rulesInForce, hinForce]
  have hall : ∀ directory, directory <+: root ++ inner →
      layerFor disk root directory ∈ layersIn disk root inner :=
    fun directory around => List.mem_append_left _ (mem_layersAround_iff.2 ⟨directory, around, rfl⟩)
  -- Rules of a repository end with it, and those of the user are not found on the way.
  cases hkind : written.kind with
  | own | shared =>
    rw [← hkind, if_neg (by rw [hkind]; decide),
      exists_mem_ofLayer_iff (by rw [hkind]; decide) (List.Subset.refl _), hkind, Reaches]
    constructor
    · rintro ⟨around, -, stands⟩
      exact ⟨stands, around⟩
    · rintro ⟨stands, around⟩
      exact ⟨around, hall _ around, stands⟩
  | repository | clone =>
    rw [← hkind, if_pos (by rw [hkind]; decide),
      exists_mem_ofLayer_iff (by rw [hkind]; decide) (inRepository_sublist _).subset, hkind, Reaches]
    constructor
    · rintro ⟨around, mem, stands⟩
      exact ⟨stands, around, (layerFor_mem_inRepository_iff around).1 mem⟩
    · rintro ⟨stands, around, none⟩
      exact ⟨around, (layerFor_mem_inRepository_iff around).2 none, stands⟩
  | user =>
    rw [← hkind, if_neg (by rw [hkind]; decide), exists_mem_ofLayer_user_iff hkind, hkind, Reaches]
    exact (and_iff_left trivial).symm

/-- Of the rules in one file, later ones outrank earlier ones. -/
theorem pairwise_ofLayer (kind : Kind) (layer : Layer) :
    (WrittenRule.ofLayer kind layer).Pairwise WrittenRule.Outranks := by
  have hnumbers : (layer.rules kind).zipIdx.Pairwise fun a b => a.2 < b.2 := by
    rw [← List.pairwise_map, List.zipIdx_map_snd]
    exact List.pairwise_lt_range'
  unfold WrittenRule.ofLayer
  rw [List.pairwise_map, List.pairwise_reverse]
  exact hnumbers.imp fun lt => .inr ⟨rfl, .inr ⟨rfl, lt⟩⟩

/-- Of the rules of one kind, those of inner directories outrank those of outer ones. -/
theorem pairwise_layersIn (kind : Kind) (inner : List FileName) :
    (layersIn disk root inner).Pairwise fun first later => ∀ a ∈ WrittenRule.ofLayer kind first,
      ∀ b ∈ WrittenRule.ofLayer kind later, a.Outranks b := by
  unfold layersIn
  rw [List.pairwise_append]
  refine ⟨pairwise_layersAround.imp fun lt a ha b hb => ?_, ?_, fun first hfirst later hlater a ha b hb => ?_⟩
  · obtain ⟨hkind, hdirectory, -⟩ := mem_ofLayer_iff.1 ha
    obtain ⟨hkind', hdirectory', -⟩ := mem_ofLayer_iff.1 hb
    exact .inr ⟨hkind.trans hkind'.symm, .inl (by rwa [hdirectory, hdirectory'])⟩
  · cases disk.userIgnore? <;> simp
  · -- The two layers have no kind in common.
    obtain ⟨directory, -, rfl⟩ := mem_layersAround_iff.1 hfirst
    obtain ⟨userIgnore, -, rfl⟩ := List.mem_map.1 (Option.toList_map .. ▸ hlater)
    obtain ⟨-, -, stands⟩ := mem_ofLayer_iff.1 ha
    obtain ⟨-, -, stands'⟩ := mem_ofLayer_iff.1 hb
    cases kind with
    | user => cases stands
    | own | shared | repository | clone => cases stands'

/-- A rule that comes before another one outranks it. -/
theorem pairwise_rulesInForce {inner : List FileName} :
    (rulesInForce (layersIn disk root inner)).Pairwise WrittenRule.Outranks := by
  have hkinds : Kind.all.Pairwise fun a b => a.rank < b.rank := by decide
  unfold rulesInForce
  rw [List.pairwise_flatMap]
  constructor
  · intro kind _
    rw [List.pairwise_flatMap]
    refine ⟨fun layer _ => pairwise_ofLayer kind layer, ?_⟩
    split
    · exact (pairwise_layersIn kind inner).sublist (inRepository_sublist _)
    · exact pairwise_layersIn kind inner
  · refine hkinds.imp fun lt a ha b hb => .inl ?_
    obtain ⟨_, -, hlayer⟩ := List.mem_flatMap.1 ha
    obtain ⟨_, -, hlayer'⟩ := List.mem_flatMap.1 hb
    rwa [(mem_ofLayer_iff.1 hlayer).1, (mem_ofLayer_iff.1 hlayer').1]

/-- In a list in which what comes first outranks the rest, the first one of some kind outranks all others
of this kind. -/
theorem find?_eq_some_iff_of_pairwise {α : Type} {list : List α} {outranks : α → α → Prop}
    {suits : α → Bool} {a : α} (sorted : list.Pairwise outranks)
    (asymm : ∀ a b, outranks a b → ¬ outranks b a) : list.find? suits = some a ↔
      a ∈ list ∧ suits a ∧ ∀ b ∈ list, suits b → b = a ∨ outranks a b := by
  have first : ∀ c, list.find? suits = some c → ∀ b ∈ list, suits b → b = c ∨ outranks c b := by
    intro c found b mem suitsB
    obtain ⟨-, before, after, rfl, none⟩ := List.find?_eq_some_iff_append.1 found
    rw [List.pairwise_append, List.pairwise_cons] at sorted
    rcases List.mem_append.1 mem with early | late
    · have := none b early
      simp [suitsB] at this
    · rcases List.mem_cons.1 late with rfl | later
      · exact .inl rfl
      · exact .inr (sorted.2.1.1 b later)
  constructor
  · intro found
    exact ⟨List.mem_of_find?_eq_some found, List.find?_some found, first a found⟩
  · rintro ⟨mem, suitsA, best⟩
    obtain ⟨c, found⟩ := Option.isSome_iff_exists.1 (List.find?_isSome.2 ⟨a, mem, suitsA⟩)
    rcases first c found a mem suitsA with rfl | before
    · exact found
    · rcases best c (List.mem_of_find?_eq_some found) (List.find?_some found) with rfl | after
      · exact found
      · exact absurd before (asymm _ _ after)

/-- The rule that is found in the layers of a search is the one that decides. -/
theorem deciding?_eq_some_iff {inner : List FileName} {written : WrittenRule} :
    deciding? (layersIn disk root inner) place isDirectory = some written ↔
      written.Decides disk root (root ++ inner) place isDirectory := by
  rw [deciding?, find?_eq_some_iff_of_pairwise pairwise_rulesInForce fun _ _ => WrittenRule.Outranks.asymm]
  simp only [mem_rulesInForce_iff]
  exact ⟨fun ⟨inForce, fits, first⟩ => ⟨inForce, fits, first⟩,
    fun ⟨inForce, fits, first⟩ => ⟨inForce, fits, first⟩⟩

end CodeCensus.Ignore
