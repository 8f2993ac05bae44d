import CodeCensus.Ignore.Layer
import Mathlib.Data.List.Basic

/-!
# Which rule decides

Ignore files are asked kind by kind, layer by layer and from their last rule on.  So there is one list of
the rules that are in force in a directory, with the rule that counts most in front (`rulesInForce`), and
the first of them that is about an entry decides on it (`verdictAt?_eq`).

Rules from outside could hide everything that they say nothing about, but only if there is one among them
about what to keep.  If all of them are about what to pass over, then their order makes no difference,
and an entry is passed over if one of them is about it (`overrideAt?_eq`).
-/

namespace CodeCensus.Ignore

open FileSystem (Place)

variable {rules : List Rule} {names : List FileName} {isDirectory : Bool}

/-! ### Rules in force -/

/-- What a rule says about the entries that it is about. -/
def Rule.verdict (rule : Rule) : Verdict :=
  if rule.keeps then .keep else .skip

/-- A rule with the place where it is written: the kind of its file, the directory from which the file
counts, and the number of the rule in the file. -/
structure WrittenRule where
  kind : Kind
  directory : Place
  number : Nat
  rule : Rule

namespace WrittenRule

/-- Whether a rule is about the entry at a place. -/
def fits (written : WrittenRule) (place : Place) (isDirectory : Bool) : Bool :=
  written.rule.fits (namesFrom written.directory place) isDirectory

/-- The rules of one kind in a layer, last one first. -/
def ofLayer (kind : Kind) (layer : Layer) : List WrittenRule :=
  (layer.rules kind).zipIdx.reverse.map fun (rule, number) => ⟨kind, layer.directory, number, rule⟩

end WrittenRule

/-- The rules of some layers in the order in which they count. -/
def rulesInForce (layers : List Layer) : List WrittenRule :=
  Kind.all.flatMap fun kind =>
    (if kind.isLocal then inRepository layers else layers).flatMap (WrittenRule.ofLayer kind)

/-- The rule that decides on a place: the first one in force that is about it. -/
def deciding? (layers : List Layer) (place : Place) (isDirectory : Bool) : Option WrittenRule :=
  (rulesInForce layers).find? (·.fits place isDirectory)

/-- Asking for the first verdict is the same as looking for the first rule. -/
theorem findSome?_map_find? {α β γ : Type} (lists : α → List β) (fits : β → Bool) (value : β → γ)
    (groups : List α) : (groups.findSome? fun group => ((lists group).find? fits).map value) =
      ((groups.flatMap lists).find? fits).map value := by
  rw [List.find?_flatMap, List.map_findSome?]
  rfl

/-- The verdict of a layer is that of the first of its rules that fits, as the last line of a file is looked
at first. -/
theorem Layer.verdict?_eq (layer : Layer) (kind : Kind) (place : Place) (isDirectory : Bool) :
    layer.verdict? kind place isDirectory =
      ((WrittenRule.ofLayer kind layer).find? (·.fits place isDirectory)).map (·.rule.verdict) := by
  have hrules : (layer.rules kind).reverse = (layer.rules kind).zipIdx.reverse.map Prod.fst := by
    rw [List.map_reverse, List.zipIdx_map_fst]
  rw [Layer.verdict?, Ignore.verdict?, hrules, WrittenRule.ofLayer, List.find?_map, List.find?_map,
    Option.map_map, Option.map_map]
  rfl

/-- What ignore files say about a place is what the deciding rule says. -/
theorem verdictAt?_eq (layers : List Layer) (place : Place) (isDirectory : Bool) :
    verdictAt? layers place isDirectory = (deciding? layers place isDirectory).map (·.rule.verdict) := by
  unfold verdictAt? deciding? rulesInForce
  simp only [Layer.verdict?_eq, findSome?_map_find?]

/-! ### Rules from outside -/

/-- Some rule is about an entry if and only if there is a last one that is. -/
theorem isSome_verdict? : (verdict? rules names isDirectory).isSome =
    rules.any fun rule => rule.fits names isDirectory := by
  rw [verdict?, Option.isSome_map, Bool.eq_iff_iff, List.find?_isSome, List.any_eq_true]
  simp only [List.mem_reverse]

/-- A verdict of rules that are all about what to keep is to keep. -/
theorem eq_keep_of_verdict? (keeping : ∀ rule ∈ rules, rule.keeps) {verdict : Verdict}
    (said : verdict? rules names isDirectory = some verdict) : verdict = .keep := by
  obtain ⟨rule, found, rfl⟩ := Option.map_eq_some_iff.1 said
  have hmem := List.mem_reverse.1 (List.mem_of_find?_eq_some found)
  exact if_pos (keeping rule hmem)

/-- Rules from outside that are all behind exclamation marks pass over what one of them is about, and say
nothing about anything else. -/
theorem overrideAt?_eq (keeping : ∀ rule ∈ rules, rule.keeps) :
    overrideAt? rules names isDirectory =
      if rules.any fun rule => rule.fits names isDirectory then some .skip else none := by
  have hnone : (rules.any fun rule => !rule.keeps) = false := by
    refine List.any_eq_false.2 fun rule mem => ?_
    simp [keeping rule mem]
  rw [← isSome_verdict?, overrideAt?, hnone]
  cases said : verdict? rules names isDirectory with
  | none => rfl
  | some verdict => cases eq_keep_of_verdict? keeping said; rfl

end CodeCensus.Ignore
