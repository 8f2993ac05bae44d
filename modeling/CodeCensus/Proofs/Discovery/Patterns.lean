import CodeCensus.Discovery
import CodeCensus.Proofs.Ignore.Precedence
import Mathlib.Data.List.Forall2

/-!
# Exclude patterns

Every line that an exclude pattern stands for is behind an exclamation mark, whatever the pattern itself
begins with.  So all rules of exclude patterns are about what to pass over (`keeps_of_rulesOfPatterns`).
Lists of patterns can be used if each of their patterns can be used alone (`exists_rulesOfPatterns`), and
one of their rules is about an entry if and only if one of their patterns excludes it
(`any_fits_iff`).
-/

namespace CodeCensus.Discovery

open FileSystem (Place)
open Ignore (Rule Layer)

variable {pattern : String} {patterns : List String} {rules : List Rule}

/-- A pattern is valid if it can be read and is not too deep. -/
def IsValid (pattern : String) : Prop :=
  ∃ rules, rulesOfPattern pattern = .ok rules ∧ Ignore.applicable rules

/-- A pattern can be read if its rules can, and if they can be applied. -/
theorem isValid_iff :
    IsValid pattern ↔ (rulesOfPattern pattern).toOption.any Ignore.applicable := by
  unfold IsValid
  cases rulesOfPattern pattern <;> simp [Except.toOption]

/-- A pattern excludes an entry if one of its rules is about it. The entry is given by the names that
lead to it from where the search begins. -/
def Excludes (pattern : String) (names : List FileName) (isDirectory : Bool) : Prop :=
  ∃ rules, rulesOfPattern pattern = .ok rules ∧ ∃ rule ∈ rules, rule.fits names isDirectory

/-! ### One pattern -/

/-- The rule of a text behind an exclamation mark. -/
def excludeRule (text : List Char) : Except Glob.Error Rule :=
  Rule.ofPattern .strict true (Ignore.trimEnd text)

/-- The exclamation mark is neither a blank nor part of an escaped one. -/
theorem trimEnd_bang (text : List Char) :
    Ignore.trimEnd ('!' :: text) = '!' :: Ignore.trimEnd text := by
  have hsuffix : ['\\', ' '].isSuffixOf ('!' :: text) = ['\\', ' '].isSuffixOf text := by
    rw [Bool.eq_iff_iff, List.isSuffixOf_iff_suffix, List.isSuffixOf_iff_suffix, List.suffix_cons_iff]
    refine or_iff_right fun same => ?_
    simp at same
  have hstrip : Text.stripEnd Text.isBlank ('!' :: text) = '!' :: Text.stripEnd Text.isBlank text := by
    have hbang : ['!'].dropWhile Text.isBlank = ['!'] := by decide
    unfold Text.stripEnd
    rw [List.reverse_cons, List.dropWhile_append, hbang]
    split
    · next empty => rw [List.isEmpty_iff.1 empty]; rfl
    · rw [List.reverse_append]; rfl
  unfold Ignore.trimEnd
  rw [hsuffix, hstrip]
  split <;> rfl

/-- A line with an exclamation mark gives the rule that excludes what follows the mark. -/
theorem ofLine_bang (text : List Char) :
    Rule.ofLine .strict ('!' :: text) = some <$> excludeRule text := by
  unfold Rule.ofLine excludeRule
  rw [trimEnd_bang]
  rfl

/-- A rule keeps what it is about if it has been made so. -/
theorem keeps_of_ofPattern {brackets : Glob.Brackets} {keeps : Bool} {written : List Char} {rule : Rule}
    (made : Rule.ofPattern brackets keeps written = .ok rule) : rule.keeps = keeps := by
  unfold Rule.ofPattern at made
  dsimp only [bind, Except.bind] at made
  split at made
  · cases made
  · cases made
    rfl

/-- Doing something with every entry of a list is done if it is done with each of them. -/
theorem mapM_eq_ok_iff {α β ε : Type} {f : α → Except ε β} {as : List α} {bs : List β} :
    as.mapM f = .ok bs ↔ List.Forall₂ (fun a b => f a = .ok b) as bs := by
  induction as generalizing bs with
  | nil => cases bs <;> simp [pure, Except.pure]
  | cons a as ih =>
    rw [List.mapM_cons, List.forall₂_cons_left_iff]
    cases hfirst : f a with
    | error fault => simp [bind, Except.bind]
    | ok b =>
      cases hothers : as.mapM f with
      | error fault => simp [bind, Except.bind, ← ih, hothers]
      | ok others => simp [bind, Except.bind, pure, Except.pure, ← ih, hothers, eq_comm]

/-- What comes out of a computation that succeeded was made from a result. -/
theorem exists_of_map_eq_ok {α β ε : Type} {f : α → β} {a? : Except ε α} {b : β}
    (mapped : f <$> a? = .ok b) : ∃ a, a? = .ok a ∧ f a = b := by
  cases a? with
  | error fault => cases mapped
  | ok a => exact ⟨a, rfl, Except.ok.inj mapped⟩

/-- A list of rules that are all there is read as a list of rules. -/
theorem mapM_some {α β ε : Type} (f : α → Except ε β) (as : List α) :
    (as.mapM fun a => some <$> f a) = List.map some <$> as.mapM f := by
  induction as with
  | nil => rfl
  | cons a as ih =>
    rw [List.mapM_cons, List.mapM_cons, ih]
    cases f a <;> cases as.mapM f <;> rfl

/-- The rules of a pattern are those of its text and of the text of the directory that it stands for. -/
theorem rulesOfPattern_eq_ok_iff : rulesOfPattern pattern = .ok rules ↔
    List.Forall₂ (fun text rule => excludeRule text = .ok rule)
      (pattern.toList :: (directoryOf? pattern.toList).toList) rules := by
  have hlines : (linesOf pattern.toList).mapM (Rule.ofLine .strict) =
      List.map some <$> (pattern.toList :: (directoryOf? pattern.toList).toList).mapM excludeRule := by
    have hline : (Rule.ofLine .strict ∘ ('!' :: ·)) = fun text => some <$> excludeRule text :=
      funext ofLine_bang
    rw [linesOf, List.mapM_map, hline, mapM_some]
  rw [← mapM_eq_ok_iff, rulesOfPattern, hlines]
  cases (pattern.toList :: (directoryOf? pattern.toList).toList).mapM excludeRule with
  | error fault => simp
  | ok rules => simp

/-! ### Lists of patterns -/

/-- Every rule of a pattern keeps what it is about from being listed. -/
theorem keeps_of_rulesOfPattern (made : rulesOfPattern pattern = .ok rules) :
    ∀ rule ∈ rules, rule.keeps := by
  have each := rulesOfPattern_eq_ok_iff.1 made
  generalize pattern.toList :: (directoryOf? pattern.toList).toList = texts at each
  clear made
  induction each with
  | nil => exact List.forall_mem_nil _
  | cons first _ ih => exact List.forall_mem_cons.2 ⟨keeps_of_ofPattern first, ih⟩

/-- Rules of patterns are the rules of each of them, if they can be applied. -/
theorem rulesOfPatterns_eq_ok_iff : rulesOfPatterns patterns = .ok rules ↔
    ∃ lists, List.Forall₂ (fun pattern rules => rulesOfPattern pattern = .ok rules) patterns lists ∧
      lists.flatten = rules ∧ Ignore.applicable rules := by
  simp only [← mapM_eq_ok_iff]
  unfold rulesOfPatterns
  cases patterns.mapM rulesOfPattern with
  | error fault => simp [bind, Except.bind]
  | ok lists =>
    by_cases applicable : Ignore.applicable lists.flatten
    · simp only [bind, Except.bind, if_pos applicable, pure, Except.pure, Except.ok.injEq]
      constructor
      · rintro rfl
        exact ⟨lists, rfl, rfl, applicable⟩
      · rintro ⟨_, rfl, rfl, _⟩
        rfl
    · simp only [bind, Except.bind, if_neg applicable, throw, throwThe, MonadExceptOf.throw]
      constructor
      · intro same
        cases same
      · rintro ⟨_, same, rfl, applicable'⟩
        cases same
        exact absurd applicable' applicable

/-- The rules of some patterns are those that one of the patterns stands for. -/
theorem mem_rules_iff (made : rulesOfPatterns patterns = .ok rules) {rule : Rule} :
    rule ∈ rules ↔ ∃ pattern ∈ patterns, ∃ own, rulesOfPattern pattern = .ok own ∧ rule ∈ own := by
  obtain ⟨lists, each, rfl, applicable⟩ := rulesOfPatterns_eq_ok_iff.1 made
  clear made applicable
  induction each with
  | nil => simp
  | @cons pattern own patterns lists first _ ih =>
    rw [List.flatten_cons, List.mem_append, ih, List.exists_mem_cons_iff]
    simp [first]

/-- And so does every rule of some patterns. -/
theorem keeps_of_rulesOfPatterns (made : rulesOfPatterns patterns = .ok rules) :
    ∀ rule ∈ rules, rule.keeps := by
  intro rule mem
  obtain ⟨pattern, _, own, hown, hrule⟩ := (mem_rules_iff made).1 mem
  exact keeps_of_rulesOfPattern hown rule hrule

/-- Valid patterns can be used together. -/
theorem exists_rulesOfPatterns (valid : ∀ pattern ∈ patterns, IsValid pattern) :
    ∃ rules, rulesOfPatterns patterns = .ok rules := by
  suffices ∃ lists, List.Forall₂ (fun pattern rules => rulesOfPattern pattern = .ok rules) patterns
      lists ∧ Ignore.applicable lists.flatten by
    obtain ⟨lists, each, applicable⟩ := this
    exact ⟨lists.flatten, rulesOfPatterns_eq_ok_iff.2 ⟨lists, each, rfl, applicable⟩⟩
  induction patterns with
  | nil => exact ⟨[], .nil, rfl⟩
  | cons pattern patterns ih =>
    obtain ⟨⟨own, made, applicable⟩, valid⟩ := List.forall_mem_cons.1 valid
    obtain ⟨lists, each, applicables⟩ := ih valid
    refine ⟨own :: lists, .cons made each, ?_⟩
    unfold Ignore.applicable at applicable applicables ⊢
    rw [List.flatten_cons, List.all_append, applicable, applicables, Bool.and_self]

/-- A rule of some patterns is about an entry if and only if one of the patterns excludes it. -/
theorem any_fits_iff (made : rulesOfPatterns patterns = .ok rules) {names : List FileName}
    {isDirectory : Bool} : (rules.any fun rule => rule.fits names isDirectory) ↔
      ∃ pattern ∈ patterns, Excludes pattern names isDirectory := by
  rw [List.any_eq_true]
  constructor
  · rintro ⟨rule, mem, fits⟩
    obtain ⟨pattern, listed, own, hown, hrule⟩ := (mem_rules_iff made).1 mem
    exact ⟨pattern, listed, own, hown, rule, hrule, fits⟩
  · rintro ⟨pattern, listed, own, hown, rule, hrule, fits⟩
    exact ⟨rule, (mem_rules_iff made).2 ⟨pattern, listed, own, hown, hrule⟩, fits⟩

end CodeCensus.Discovery
