import CodeCensus.Proofs.Discovery.Listing
import CodeCensus.Proofs.Glob

/-!
# Passing over whole directories

A pattern for everything inside a directory also stands for a rule about the directory itself, so that it
is not searched in vain.  This rule may say more than the pattern: it is about files too, and if the
directory is given without a slash, then it is about entries at every depth.  So further files may drop
out, those on the way to which there is an entry that the rule is about.  If the place of the directory is
given (`IsLocated`), only files drop out that the rule is about themselves (`mem_files_inside_iff`), since
what is inside such a directory is excluded by the pattern anyway (`fits_below`).
-/

namespace CodeCensus.Discovery

open FileSystem (Disk Place Tree Entry)
open Ignore (Rule)
open CodeCensus.Path (IsName)

variable {disk : Disk} {root : Path} {target : Place} {inside : Tree} {rules fewer : List Rule}
  {exclude languages : List String} {inner outer rule : Rule} {text : List Char}

/-! ### The rules of a pattern for what is inside -/

/-- What the text of a pattern for everything inside a directory ends in. -/
def allInside : List Char :=
  ['/', '*', '*']

/-- A pattern for everything inside a directory gives the directory. -/
theorem directoryOf?_append (text : List Char) : directoryOf? (text ++ allInside) = some text := by
  have hsuffix : ['/', '*', '*'].isSuffixOf (text ++ allInside) :=
    List.isSuffixOf_iff_suffix.2 (List.suffix_append _ _)
  rw [directoryOf?, if_pos hsuffix, List.length_append]
  exact congrArg some (List.take_left)

/-- Such a pattern is the directory with a slash and two stars. -/
theorem toList_append_allInside (directory : String) :
    (directory ++ "/**").toList = directory.toList ++ allInside := by
  rw [String.toList_append]
  rfl

/-- A pattern for what is inside a directory has two rules. -/
theorem exists_of_rulesOfPattern_inside {directory : String}
    (made : rulesOfPattern (directory ++ "/**") = .ok rules) :
    ∃ inner outer, rules = [inner, outer] ∧ excludeRule (directory.toList ++ allInside) = .ok inner ∧
      excludeRule directory.toList = .ok outer := by
  have each := rulesOfPattern_eq_ok_iff.1 made
  rw [toList_append_allInside, directoryOf?_append] at each
  obtain ⟨inner, others, hinner, hothers, rfl⟩ := List.forall₂_cons_left_iff.1 each
  obtain ⟨outer, rest, houter, hrest, rfl⟩ := List.forall₂_cons_left_iff.1 hothers
  obtain rfl := List.forall₂_nil_left_iff.1 hrest
  exact ⟨inner, outer, rfl, hinner, houter⟩

/-! ### Located directories -/

/-- A text gives the place of a directory if it has a slash and ends in something that is neither a
slash nor a blank nor two stars. -/
structure IsLocated (text : List Char) : Prop where
  hasSlash : '/' ∈ text
  noBlank : Ignore.trimEnd text = text
  noSlash : text.getLast? ≠ some '/'
  noStars : ¬ ['*', '*'] <:+ text

/-- A text without a slash in front. -/
def unrooted (text : List Char) : List Char :=
  if text.head? = some '/' then text.tail else text

/-- A text without the slash in front is an end of it. -/
theorem unrooted_suffix (text : List Char) : unrooted text <:+ text := by
  unfold unrooted
  split
  · exact List.tail_suffix text
  · exact List.suffix_rfl

/-- It still does not end in a slash. -/
theorem getLast?_unrooted (noSlash : text.getLast? ≠ some '/') :
    (unrooted text).getLast? ≠ some '/' := by
  unfold unrooted
  split
  · next rooted =>
    obtain ⟨rest, rfl⟩ := List.head?_eq_some_iff.1 rooted
    intro last
    obtain ⟨before, hbefore⟩ := List.getLast?_eq_some_iff.1 last
    rw [List.tail_cons] at hbefore
    refine noSlash ?_
    rw [hbefore, ← List.cons_append, List.getLast?_concat]
  · exact noSlash

/-- Something is left of a located directory without the slash in front. -/
theorem IsLocated.unrooted_ne_nil (located : IsLocated text) : unrooted text ≠ [] := by
  obtain ⟨c, rest, rfl⟩ := List.exists_cons_of_ne_nil (List.ne_nil_of_mem located.hasSlash)
  unfold unrooted
  split
  · next rooted =>
    rintro rfl
    exact located.noSlash rooted
  · exact List.cons_ne_nil c rest

/-- The rule of a pattern that has a slash, but not at its end. -/
theorem excludeRule_eq (hasSlash : '/' ∈ text) (noBlank : Ignore.trimEnd text = text)
    (noSlash : text.getLast? ≠ some '/') : excludeRule text =
      (fun pattern => ⟨pattern, true, false⟩) <$>
        Glob.Pattern.parse .strict (Ignore.onlyInside (unrooted text)) := by
  have hlast := getLast?_unrooted noSlash
  have hplace : text.head? = some '/' ∨ '/' ∈ unrooted text := by
    by_cases rooted : text.head? = some '/'
    · exact .inl rooted
    · exact .inr (by rwa [unrooted, if_neg rooted])
  unfold excludeRule Rule.ofPattern
  rw [noBlank]
  unfold unrooted at hlast hplace ⊢
  simp only [if_neg hlast, if_pos hplace, decide_eq_false hlast]
  cases Glob.Pattern.parse .strict _ <;> rfl

/-- A text that ends in something visible has no blanks to be taken off. -/
theorem trimEnd_concat {c : Char} (notBlank : ¬ Text.isBlank c) (text : List Char) :
    Ignore.trimEnd (text ++ [c]) = text ++ [c] := by
  unfold Ignore.trimEnd Text.stripEnd
  rw [List.reverse_append, List.reverse_singleton, List.singleton_append,
    List.dropWhile_cons_of_neg notBlank]
  simp

/-- The rule about a located directory has its pattern as it is written. -/
theorem excludeRule_located (located : IsLocated text) : excludeRule text =
    (fun pattern => ⟨pattern, true, false⟩) <$> Glob.Pattern.parse .strict (unrooted text) := by
  have hinside : ¬ ['/', '*', '*'].isSuffixOf (unrooted text) := by
    intro suffix
    have hstars : ['*', '*'] <:+ ['/', '*', '*'] := List.suffix_cons _ _
    exact located.noStars ((hstars.trans (List.isSuffixOf_iff_suffix.1 suffix)).trans
      (unrooted_suffix text))
  rw [excludeRule_eq located.hasSlash located.noBlank located.noSlash, Ignore.onlyInside,
    if_neg hinside]

/-- The rule about what is inside is about names at every depth there. -/
theorem excludeRule_inside (hasSlash : '/' ∈ text) : excludeRule (text ++ allInside) =
    (fun pattern => ⟨pattern, true, false⟩) <$>
      Glob.Pattern.parse .strict (unrooted text ++ ['/', '*', '*', '/', '*']) := by
  have hunrooted : unrooted (text ++ allInside) = unrooted text ++ allInside := by
    obtain ⟨c, rest, rfl⟩ := List.exists_cons_of_ne_nil (List.ne_nil_of_mem hasSlash)
    unfold unrooted
    split <;> simp_all
  have hinside : Ignore.onlyInside (unrooted text ++ allInside) =
      unrooted text ++ ['/', '*', '*', '/', '*'] := by
    have hsuffix : ['/', '*', '*'].isSuffixOf (unrooted text ++ allInside) :=
      List.isSuffixOf_iff_suffix.2 (List.suffix_append _ _)
    rw [Ignore.onlyInside, if_pos hsuffix, List.append_assoc]
    rfl
  have hconcat : text ++ allInside = (text ++ ['/', '*']) ++ ['*'] := by simp [allInside]
  have hblank : Ignore.trimEnd (text ++ allInside) = text ++ allInside := by
    rw [hconcat, trimEnd_concat (by decide)]
  have hlast : (text ++ allInside).getLast? ≠ some '/' := by
    rw [hconcat, List.getLast?_concat]
    decide
  rw [excludeRule_eq (List.mem_append_left _ hasSlash) hblank hlast, hunrooted, hinside]

/-! ### What is below a place -/

/-- The path of names in a row is that of the first ones, a slash, and that of the others. -/
theorem pathBytes_append {names others : List FileName} (ne_nil : names ≠ []) (ne_nil' : others ≠ []) :
    Ignore.pathBytes (names ++ others) =
      Ignore.pathBytes names ++ Path.slash :: Ignore.pathBytes others := by
  obtain ⟨name, names, rfl⟩ := List.exists_cons_of_ne_nil ne_nil
  obtain ⟨other, others, rfl⟩ := List.exists_cons_of_ne_nil ne_nil'
  unfold Ignore.pathBytes
  rw [List.cons_append, Path.intercalate_cons, Path.intercalate_cons, Path.intercalate_cons,
    List.flatMap_append, List.flatMap_cons, List.append_assoc, List.cons_append]

/-- The bytes of a path are those of its last name behind what is empty or ends in a slash. -/
theorem exists_pathBytes_eq {names : List FileName} (ne_nil : names ≠ []) :
    ∃ before name, name ∈ names ∧ Ignore.pathBytes names = before ++ name ∧
      (before = [] ∨ before.getLast? = some Path.slash) := by
  obtain ⟨front, name, rfl⟩ : ∃ front name, names = front ++ [name] :=
    ⟨_, _, (List.dropLast_concat_getLast ne_nil).symm⟩
  have hmem : name ∈ front ++ [name] := List.mem_append_right _ List.mem_cons_self
  by_cases only : front = []
  · subst only
    exact ⟨[], name, hmem, by simp [Ignore.pathBytes], .inl rfl⟩
  · refine ⟨Ignore.pathBytes front ++ [Path.slash], name, hmem, ?_, .inr ?_⟩
    · rw [pathBytes_append only (List.cons_ne_nil _ _), List.append_assoc]
      simp [Ignore.pathBytes]
    · rw [List.getLast?_concat]

/-- What is below an entry that the rule about a located directory is about, the rule about what is
inside is about. -/
theorem fits_below (located : IsLocated text) (houter : excludeRule text = .ok outer)
    (hinner : excludeRule (text ++ allInside) = .ok inner) {front rest : List FileName}
    (ne_nil : front ≠ []) (ne_nil' : rest ≠ []) (areNames : ∀ name ∈ rest, IsName name)
    {isDirectory isDirectory' : Bool} (fits : outer.fits front isDirectory) :
    inner.fits (front ++ rest) isDirectory' := by
  rw [excludeRule_located located] at houter
  rw [excludeRule_inside located.hasSlash] at hinner
  obtain ⟨pattern, hparsed, rfl⟩ := exists_of_map_eq_ok houter
  obtain ⟨pattern', hparsed', rfl⟩ := exists_of_map_eq_ok hinner
  obtain ⟨before, name, mem, hbytes, separated⟩ := exists_pathBytes_eq ne_nil'
  have hstars : ¬ ['*', '*'] <:+ unrooted text := fun suffix =>
    located.noStars (suffix.trans (unrooted_suffix text))
  have haccepted : pattern.glob.accepts (Ignore.pathBytes front) := by
    simpa [Rule.fits] using fits
  have haccepts := Glob.Pattern.accepts_inside located.unrooted_ne_nil hstars
    (getLast?_unrooted located.noSlash) hparsed hparsed' haccepted (areNames name mem).noSlash separated
  rw [Rule.fits, pathBytes_append ne_nil ne_nil', hbytes]
  exact haccepts

/-! ### Files that drop out -/

/-- A rule spares a file if it is about nothing on the way to it: about no directory above the file, and
not about the file itself. -/
def Spares (rule : Rule) (names : List FileName) : Prop :=
  ∀ front, front ≠ [] → front <+: names → ¬ rule.fits front (front ≠ names)

/-- A further rule takes away the files that it does not spare. -/
theorem reaches_iff_and (keeping : ∀ rule ∈ rules, rule.keeps)
    (same : ∀ other, other ∈ rules ↔ other = rule ∨ other ∈ fewer) {names : List FileName} :
    reaches disk rules target [] names ↔
      reaches disk fewer target [] names ∧ Spares rule names := by
  have hkeeping : ∀ other ∈ fewer, other.keeps := fun other mem =>
    keeping other ((same other).2 (.inr mem))
  rw [reaches_iff, reaches_iff, Spares, ← forall_and]
  refine forall_congr' fun front => ?_
  rw [← forall_and]
  refine forall_congr' fun ne_nil => ?_
  rw [← forall_and]
  refine forall_congr' fun _ => ?_
  rw [List.nil_append, skipsBelow_iff ne_nil keeping, skipsBelow_iff ne_nil hkeeping, List.any_eq_true,
    List.any_eq_true]
  simp only [same, or_and_right, exists_or, exists_eq_left, not_or, and_comm, and_left_comm]

/-- The rules of a pattern for what is inside a directory, together with those of other patterns. -/
theorem exists_rules_inside {directory : String} (valid : IsValid (directory ++ "/**"))
    (valids : ∀ pattern ∈ exclude, IsValid pattern) :
    ∃ rules inner outer others, rulesOfPatterns ((directory ++ "/**") :: exclude) = .ok rules ∧
      excludeRule (directory.toList ++ allInside) = .ok inner ∧
      excludeRule directory.toList = .ok outer ∧ rulesOfPatterns exclude = .ok others ∧
      ∀ rule, rule ∈ rules ↔ rule = outer ∨ rule ∈ inner :: others := by
  obtain ⟨rules, made⟩ := exists_rulesOfPatterns (List.forall_mem_cons.2 ⟨valid, valids⟩)
  obtain ⟨others, hothers⟩ := exists_rulesOfPatterns valids
  obtain ⟨own, hown, _⟩ := valid
  obtain ⟨inner, outer, rfl, hinner, houter⟩ := exists_of_rulesOfPattern_inside hown
  refine ⟨rules, inner, outer, others, made, hinner, houter, hothers, fun rule => ?_⟩
  rw [mem_rules_iff made, List.exists_mem_cons_iff, ← mem_rules_iff hothers, hown]
  simp only [Except.ok.injEq, exists_eq_left', List.mem_cons, List.not_mem_nil, or_false]
  tauto

/-- The rule about a located directory is about no directory on the way to a file that is reached; so it
spares the file unless it is about the file itself. -/
theorem spares_iff {others : List Rule} (located : IsLocated text)
    (houter : excludeRule text = .ok outer) (hinner : excludeRule (text ++ allInside) = .ok inner)
    (keeping : ∀ rule ∈ inner :: others, rule.keeps) {names : List FileName} (ne_nil : names ≠ [])
    (areNames : ∀ name ∈ names, IsName name)
    (reached : reaches disk (inner :: others) target [] names) :
    Spares outer names ↔ ¬ outer.fits names false := by
  constructor
  · intro none
    simpa using none names ne_nil List.prefix_rfl
  · intro none front hfront fronts fits
    obtain ⟨rest, rfl⟩ := fronts
    by_cases last : rest = []
    · subst last
      rw [List.append_nil] at none fits
      exact none (by simpa using fits)
    · have hrest : ∀ name ∈ rest, IsName name := fun name mem =>
        areNames name (List.mem_append_right _ mem)
      -- A directory on the way would have the file itself excluded, which is reached, though.
      have hinside : inner.fits (front ++ rest) false :=
        fits_below located houter hinner hfront last hrest fits
      have hskipped := reaches_iff.1 reached (front ++ rest) ne_nil List.prefix_rfl
      rw [List.nil_append, skipsBelow_iff ne_nil keeping] at hskipped
      refine hskipped (.inl ?_)
      simp [hinside]

/-- What would hold if the rule about a directory were nothing but a shortcut: the files that are listed
are those that are listed without this rule. -/
def IsShortcut (disk : Disk) (root : Path) (exclude languages : List String) (directory : String) :
    Prop :=
  ∀ records inner others,
    files disk root ⟨(directory ++ "/**") :: exclude, languages⟩ = .ok records →
    excludeRule (directory ++ "/**").toList = .ok inner → rulesOfPatterns exclude = .ok others →
    ∀ file, file ∈ records ↔ file ∈ listing disk root languages (inner :: others)

/-- A file is listed if it is listed without the rule about the directory and this rule spares it. -/
theorem mem_listing_iff_and {others : List Rule}
    (resolved : FileSystem.resolve disk.root disk.working .follow root = .ok target)
    (isDirectory : disk.root.at? target = some (.directory inside)) (proper : IsProper inside)
    (keeping : ∀ rule ∈ rules, rule.keeps)
    (hmem : ∀ rule, rule ∈ rules ↔ rule = outer ∨ rule ∈ inner :: others) {names : List FileName}
    {body : ByteArray} (stands : inside.at? names = some (.file body)) :
    sourceFileBelow root (names, body) ∈ listing disk root languages rules ↔
      sourceFileBelow root (names, body) ∈ listing disk root languages (inner :: others) ∧
        Spares outer names := by
  rw [sourceFileBelow_mem_iff resolved isDirectory proper stands,
    sourceFileBelow_mem_iff resolved isDirectory proper stands, reaches_iff_and keeping hmem,
    and_right_comm]

/-- The rule about a directory is a shortcut if it spares all files that are listed without it. -/
theorem isShortcut_iff {directory : String} {others : List Rule}
    (resolved : FileSystem.resolve disk.root disk.working .follow root = .ok target)
    (isDirectory : disk.root.at? target = some (.directory inside)) (proper : IsProper inside)
    (made : rulesOfPatterns ((directory ++ "/**") :: exclude) = .ok rules)
    (hinner : excludeRule (directory ++ "/**").toList = .ok inner)
    (hothers : rulesOfPatterns exclude = .ok others)
    (hmem : ∀ rule, rule ∈ rules ↔ rule = outer ∨ rule ∈ inner :: others) :
    IsShortcut disk root exclude languages directory ↔
      ∀ names body, inside.at? names = some (.file body) →
        sourceFileBelow root (names, body) ∈ listing disk root languages (inner :: others) →
        Spares outer names := by
  have hlisted : ∀ {names body}, inside.at? names = some (.file body) →
      (sourceFileBelow root (names, body) ∈ listing disk root languages rules ↔
        sourceFileBelow root (names, body) ∈ listing disk root languages (inner :: others) ∧
          Spares outer names) :=
    mem_listing_iff_and resolved isDirectory proper (keeps_of_rulesOfPatterns made) hmem
  constructor
  · intro law names body stands listed
    have same := law _ inner others (files_eq made) hinner hothers (sourceFileBelow root (names, body))
    exact ((hlisted stands).1 (same.2 listed)).2
  · rintro none records inner' others' hrecords hinner' hothers' file
    obtain rfl := Except.ok.inj (hinner.symm.trans hinner')
    obtain rfl := Except.ok.inj (hothers.symm.trans hothers')
    obtain rfl := Except.ok.inj ((files_eq made).symm.trans hrecords)
    constructor
    · intro mem
      obtain ⟨names, body, stands, _, rfl, _⟩ :=
        (mem_listing_iff resolved isDirectory proper.distinct).1 mem
      exact ((hlisted stands).1 mem).1
    · intro mem
      obtain ⟨names, body, stands, _, rfl, _⟩ :=
        (mem_listing_iff resolved isDirectory proper.distinct).1 mem
      exact (hlisted stands).2 ⟨mem, none names body stands mem⟩

/-- A pattern for what is inside a directory takes away the files that its rule about what is inside takes
away, and further those on the way to which there is an entry that the rule about the directory is
about; so this rule is a shortcut only if there are none. For a located directory these are only the
files that the rule is about themselves. -/
theorem mem_files_inside_iff {directory : String}
    (resolved : FileSystem.resolve disk.root disk.working .follow root = .ok target)
    (isDirectory : disk.root.at? target = some (.directory inside)) (proper : IsProper inside)
    (valid : IsValid (directory ++ "/**")) (valids : ∀ pattern ∈ exclude, IsValid pattern)
    (languages : List String) :
    ∃ records inner outer others,
      files disk root ⟨(directory ++ "/**") :: exclude, languages⟩ = .ok records ∧
      excludeRule (directory ++ "/**").toList = .ok inner ∧ excludeRule directory.toList = .ok outer ∧
      rulesOfPatterns exclude = .ok others ∧
      (∀ names body, inside.at? names = some (.file body) →
        (sourceFileBelow root (names, body) ∈ records ↔
          sourceFileBelow root (names, body) ∈ listing disk root languages (inner :: others) ∧
            Spares outer names)) ∧
      (IsShortcut disk root exclude languages directory ↔
        ∀ names body, inside.at? names = some (.file body) →
          sourceFileBelow root (names, body) ∈ listing disk root languages (inner :: others) →
          Spares outer names) ∧
      (IsLocated directory.toList → ∀ names body, inside.at? names = some (.file body) →
        (sourceFileBelow root (names, body) ∈ records ↔
          sourceFileBelow root (names, body) ∈ listing disk root languages (inner :: others) ∧
            ¬ outer.fits names false)) := by
  obtain ⟨rules, inner, outer, others, made, hinner, houter, hothers, hmem⟩ :=
    exists_rules_inside valid valids
  have hinner' : excludeRule (directory ++ "/**").toList = .ok inner :=
    toList_append_allInside _ ▸ hinner
  have keeping := keeps_of_rulesOfPatterns made
  refine ⟨_, inner, outer, others, files_eq made, hinner', houter, hothers, ?_, ?_, ?_⟩
  · intro names body stands
    exact mem_listing_iff_and resolved isDirectory proper keeping hmem stands
  · exact isShortcut_iff resolved isDirectory proper made hinner' hothers hmem
  · intro located names body stands
    rw [mem_listing_iff_and resolved isDirectory proper keeping hmem stands]
    refine and_congr_right fun listed => ?_
    -- A file that is listed without the rule has passed every directory on its way, so only the rule on itself
    -- is left.
    have hkeeping : ∀ rule ∈ inner :: others, rule.keeps := fun rule mem =>
      keeping rule ((hmem rule).2 (.inr mem))
    have reached := ((sourceFileBelow_mem_iff resolved isDirectory proper stands).1 listed).1
    exact spares_iff located houter hinner hkeeping (Tree.ne_nil_of_at?_file stands)
      (proper.named.of_at? stands) reached

/-! ### A directory without a slash -/

/-- A disk with one file, at `a/b/c`. -/
def nestedDisk : Disk where
  root := .directory [0x61] (.directory [0x62] (.file [0x63] .empty .empty) .empty) .empty
  working := []

theorem isProper_nestedDisk : IsProper nestedDisk.root :=
  ⟨by decide, by decide⟩

/-- The file is not below `b`, where it would have to be for `b/**` to be about it, but `b` is on the way
to it. -/
theorem mem_files_inside_iff_nested :
    FileSystem.resolve nestedDisk.root nestedDisk.working .follow ⟨[Path.slash]⟩ = .ok [] ∧
      IsProper nestedDisk.root ∧ IsValid ("b" ++ "/**") ∧
      ∃ records inner outer, files nestedDisk ⟨[Path.slash]⟩ ⟨["b" ++ "/**"], []⟩ = .ok records ∧
        excludeRule ("b" ++ "/**").toList = .ok inner ∧ excludeRule "b".toList = .ok outer ∧
        outer.fits [[0x61], [0x62]] true ∧
        sourceFileBelow ⟨[Path.slash]⟩ ([[0x61], [0x62], [0x63]], .empty) ∉ records := by
  have resolved : FileSystem.resolve nestedDisk.root nestedDisk.working .follow ⟨[Path.slash]⟩ =
      .ok [] := by
    cbv
  have valid : IsValid ("b" ++ "/**") := isValid_iff.2 (by cbv)
  have about : (excludeRule "b".toList).toOption.any (·.fits [[0x61], [0x62]] true) := by
    cbv
  obtain ⟨records, inner, outer, _, listed, hinner, houter, _, lost, _⟩ :=
    mem_files_inside_iff resolved rfl isProper_nestedDisk valid (List.forall_mem_nil IsValid) []
  rw [houter] at about
  refine ⟨resolved, isProper_nestedDisk, valid, records, inner, outer, listed, hinner, houter, about, ?_⟩
  intro mem
  have hnone := ((lost [[0x61], [0x62], [0x63]] .empty rfl).1 mem).2
  exact hnone [[0x61], [0x62]] (by decide) ⟨[[0x63]], rfl⟩ about

/-- The rule about a directory is no shortcut if only its name is given. -/
theorem not_isShortcut_nested : IsProper nestedDisk.root ∧ IsValid ("b" ++ "/**") ∧
    ¬ IsShortcut nestedDisk ⟨[Path.slash]⟩ [] [] "b" := by
  have listed : files nestedDisk ⟨[Path.slash]⟩ ⟨["b" ++ "/**"], []⟩ = .ok [] := by
    cbv
  have hothers : rulesOfPatterns [] = .ok [] := rfl
  have shown : (excludeRule ("b" ++ "/**").toList).toOption.any fun inner =>
      !(listing nestedDisk ⟨[Path.slash]⟩ [] [inner]).isEmpty := by
    cbv
  refine ⟨isProper_nestedDisk, isValid_iff.2 (by cbv), fun law => ?_⟩
  cases hinner : excludeRule ("b" ++ "/**").toList with
  | error e =>
    rw [hinner] at shown
    cases shown
  | ok inner =>
    have same := law [] inner [] listed hinner hothers
    have hempty : listing nestedDisk ⟨[Path.slash]⟩ [] [inner] = [] :=
      List.eq_nil_iff_forall_not_mem.2 fun file mem => List.not_mem_nil ((same file).2 mem)
    rw [hinner, Except.toOption, Option.any_some, hempty] at shown
    cases shown

end CodeCensus.Discovery
