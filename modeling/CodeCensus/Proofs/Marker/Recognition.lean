import CodeCensus.Proofs.Marker.Grammar
import CodeCensus.Proofs.Pattern

/-!
# The patterns of markers

For every kind there is a pattern that is searched on a line: an opener, blanks, the keyword in any case, a
separator, then a stretch that is kept, as short as possible and not empty, which one closer may follow at
the end of the line.  A line without line feeds has the marker that a search for these patterns finds,
tried kind after kind (`scanLine_eq_searchLine`); the stretch that is kept is what the grammar calls
captured.  Together with the grammar this says what the patterns accept and what they take
(`scanLine_grammar`).
-/

namespace CodeCensus.Marker

open Text (Fit Pattern isBlank trimLine)
open Text.Pattern (kept? search? literal spelled)

/-! ### The pattern of a kind -/

/-- Any comment opener. -/
def openerPattern : Pattern :=
  .orElse (literal ['/', '/']) <| .orElse (literal ['#']) <|
    .orElse (literal ['/', '*']) (literal ['<', '!', '-', '-'])

/-- Any text that closes a comment. -/
def closerPattern : Pattern :=
  .orElse (literal ['*', '/']) (literal ['-', '-', '>'])

/-- A closer may stand here, and then the text ends. -/
def endPattern : Pattern :=
  .andThen (.orElse closerPattern .nothing) .atEnd

/-- What is kept of a marker, up to the end of the line. -/
def bodyPattern : Pattern :=
  .andThen (.keep (.reluctant (· ≠ '\n'))) endPattern

/-- What follows the opener of a marker of a kind. -/
def announcementPattern (kind : Kind) : Pattern :=
  .andThen (.greedy isBlank) <|
    .andThen (spelled (fun letter c => c ∈ Text.letterCases letter) kind.name.toList) <|
      .andThen (.one fun c => c = ':' || isBlank c) bodyPattern

/-- The marker of a kind, up to the end of the line. -/
def markerPattern (kind : Kind) : Pattern :=
  .andThen openerPattern (announcementPattern kind)

/-- What is kept without its margins, or the whole line where that leaves nothing. -/
def textKept (line : List Char) (kept : Option (List Char)) : List Char :=
  ((kept.map trimLine).filter (· ≠ [])).getD (trimLine line)

/-- The marker that is found by searching for the patterns, kind after kind. -/
def searchLine (line : List Char) : Option (Kind × List Char) :=
  Kind.all.findSome? fun kind =>
    (search? (markerPattern kind) line).map fun fit => (kind, textKept line fit.kept)

/-! ### What is kept of a body -/

section Body

variable {body : List Char}

/-- The pattern for closers fits in front of whatever follows one. -/
theorem mem_fits_closerPattern_iff {text : List Char} {fit : Fit} :
    fit ∈ Pattern.fits closerPattern text ↔
      ∃ closer ∈ closers, ∃ rest, text = closer ++ rest ∧ fit = ⟨closer, none, rest⟩ := by
  rw [closerPattern, Pattern.mem_fits_orElse_iff, Pattern.mem_fits_literal_iff,
    Pattern.mem_fits_literal_iff]
  simp only [closers, List.mem_cons, List.not_mem_nil, or_false, exists_eq_or_imp, exists_eq_left]

/-- The end fits in one way: behind a closer or at once. -/
theorem mem_fits_endPattern_iff {rest : List Char} {fit : Fit} :
    fit ∈ Pattern.fits endPattern rest ↔ (rest = [] ∨ rest ∈ closers) ∧ fit = ⟨rest, none, []⟩ := by
  rw [endPattern, Pattern.mem_fits_andThen_iff]
  constructor
  · rintro ⟨front, hfront, behind, hbehind, rfl⟩
    obtain ⟨hnil, rfl⟩ := Pattern.mem_fits_atEnd_iff.1 hbehind
    rcases Pattern.mem_fits_orElse_iff.1 hfront with closed | bare
    · obtain ⟨closer, hcloser, left, rfl, rfl⟩ := mem_fits_closerPattern_iff.1 closed
      obtain rfl : left = [] := hnil
      rw [List.append_nil]
      exact ⟨Or.inr hcloser, by rw [Fit.andThen, List.append_nil, Option.or_none]⟩
    · rw [Pattern.mem_fits_nothing_iff.1 bare] at hnil ⊢
      obtain rfl : rest = [] := hnil
      exact ⟨Or.inl rfl, rfl⟩
  · rintro ⟨here, rfl⟩
    have hfront : (⟨rest, none, []⟩ : Fit) ∈ Pattern.fits (.orElse closerPattern .nothing) rest := by
      rw [Pattern.mem_fits_orElse_iff]
      rcases here with rfl | hcloser
      · exact Or.inr (Pattern.mem_fits_nothing_iff.2 rfl)
      · refine Or.inl (mem_fits_closerPattern_iff.2 ⟨rest, hcloser, [], ?_, rfl⟩)
        rw [List.append_nil]
    refine ⟨⟨rest, none, []⟩, hfront, ⟨[], none, []⟩, Pattern.mem_fits_atEnd_iff.2 ⟨rfl, rfl⟩, ?_⟩
    rw [Fit.andThen, List.append_nil, Option.or_none]

/-- The pattern for the end fits at the end of a line, or at a closer with nothing behind it. -/
theorem head?_fits_endPattern_isSome_iff {rest : List Char} :
    (Pattern.fits endPattern rest).head?.isSome ↔ rest = [] ∨ rest ∈ closers := by
  constructor
  · intro fits
    obtain ⟨fit, hfit⟩ := Option.isSome_iff_exists.1 fits
    exact (mem_fits_endPattern_iff.1 (List.mem_of_mem_head? hfit)).1
  · intro here
    have hmem : (⟨rest, none, []⟩ : Fit) ∈ Pattern.fits endPattern rest :=
      mem_fits_endPattern_iff.2 ⟨here, rfl⟩
    rw [List.isSome_head?]
    exact List.ne_nil_of_mem hmem

/-- The shortest stretch that may be kept is what is captured. -/
theorem kept?_bodyPattern (noFeed : '\n' ∉ body) (visible : body ≠ []) :
    kept? bodyPattern body = some (some (dropCloser body)) := by
  have hsilent : ∀ rest, ∀ fit ∈ Pattern.fits endPattern rest, fit.kept = none := by
    intro rest fit hfit
    rw [(mem_fits_endPattern_iff.1 hfit).2]
  have hends : ∀ rest, (Pattern.fits endPattern rest).head?.isSome = false ↔
      ¬ (rest = [] ∨ rest ∈ closers) := by
    intro rest
    rw [← head?_fits_endPattern_isSome_iff, Bool.not_eq_true]
  have hclass : ∀ front, front <+: body → ∀ c ∈ front, decide (c ≠ '\n') = true := by
    intro front hfront c hc
    have hne : c ≠ '\n' := fun same => noFeed (same ▸ hfront.subset hc)
    simpa using hne
  obtain ⟨rest, hfind⟩ : ∃ rest, ((Pattern.stretches (fun c => decide (c ≠ '\n')) body).find?
      fun cut : Pattern.Cut => (Pattern.fits endPattern cut.2).head?.isSome) =
        some (dropCloser body, rest) := by
    rcases captures_iff.2 (Eq.refl (dropCloser body)) with ⟨hsome, closer, hcloser, hbody⟩ | ⟨hsame, uncut⟩
    · refine ⟨closer, Pattern.find?_stretches_eq_some
        (fun rest => (Pattern.fits endPattern rest).head?.isSome) hbody hsome
        (hclass _ ⟨closer, hbody.symm⟩) (head?_fits_endPattern_isSome_iff.2 (Or.inr hcloser)) ?_⟩
      -- A shorter stretch would leave more than a closer.
      intro other behind hsplit hother hlt
      have hlengths : other.length + behind.length = (dropCloser body).length + closer.length := by
        rw [← List.length_append, ← List.length_append, ← hsplit, ← hbody]
      rw [hends]
      rintro (hnil | hcloser')
      · rw [hnil, List.length_nil] at hlengths
        omega
      · have hequal : closer = behind := closer_unique hcloser hcloser' (hbody.symm.trans hsplit)
        rw [hequal] at hlengths
        omega
    · have hbody : body = dropCloser body ++ [] := by rw [hsame, List.append_nil]
      refine ⟨[], Pattern.find?_stretches_eq_some
        (fun rest => (Pattern.fits endPattern rest).head?.isSome) hbody (hsame.symm ▸ visible)
        (hclass _ ⟨[], hbody.symm⟩) (head?_fits_endPattern_isSome_iff.2 (Or.inl rfl)) ?_⟩
      intro other behind hsplit hother hlt
      rw [hends]
      rintro (hnil | hcloser)
      · rw [hsame, hsplit, hnil, List.append_nil] at hlt
        exact Nat.lt_irrefl _ hlt
      · exact uncut behind hcloser other hother hsplit
  rw [bodyPattern, Pattern.kept?_reluctant_andThen hsilent, hfind]
  rfl

end Body

/-! ### What is kept of a line -/

/-- The letters of the keyword of a kind, in any case. -/
theorem after?_letterCases (kind : Kind) (text : List Char) :
    Text.after? (fun letter c => c ∈ Text.letterCases letter) kind.name.toList text =
      Text.after? (fun k c => k == Text.foldChar c) kind.keyword text := by
  ext rest
  rw [Text.after?_eq_some_iff, Text.after?_eq_some_iff]
  simp only [← isKeyword_iff, decide_eq_true_eq]
  rfl

/-- A keyword does not begin with a blank. -/
theorem after?_letterCases_blank (kind : Kind) {c : Char} (blank : isBlank c) (rest : List Char) :
    Text.after? (fun letter c => c ∈ Text.letterCases letter) kind.name.toList (c :: rest) = none := by
  rw [after?_letterCases, Option.eq_none_iff_forall_ne_some]
  intro left found
  obtain ⟨word, hsplit, hword⟩ := Text.after?_eq_some_iff.1 found
  have keyword : IsKeyword kind word := isKeyword_iff.2 hword
  obtain ⟨d, letters, rfl⟩ := List.exists_cons_of_ne_nil (ne_nil_of_isKeyword keyword)
  have hletter : isBlank d = false := (of_mem_keyword keyword List.mem_cons_self).1
  rw [← (List.cons.inj hsplit).1, blank] at hletter
  exact Bool.noConfusion hletter

section Line

variable {kind : Kind} {text line : List Char}

/-- With a given opener the pattern keeps what is captured. -/
theorem kept?_behindOpener (noFeed : '\n' ∉ text) (opener : List Char) :
    (Text.after? (· == ·) opener text).bind (kept? (announcementPattern kind)) =
      (bodyBehind? kind text opener).map fun body => some (dropCloser body) := by
  rw [bodyBehind?, Option.bind_eq_bind, Option.map_bind]
  refine Option.bind_congr fun afterOpener hopener => ?_
  have hstops : ∀ c rest, isBlank c → kept? (.andThen
      (spelled (fun letter c => c ∈ Text.letterCases letter) kind.name.toList)
      (.andThen (.one fun c => c = ':' || isBlank c) bodyPattern)) (c :: rest) = none := by
    intro c rest blank
    rw [Pattern.kept?_spelled_andThen, after?_letterCases_blank kind blank, Option.bind_none]
  rw [announcementPattern, Pattern.kept?_greedy_andThen hstops, Pattern.kept?_spelled_andThen,
    after?_letterCases, Function.comp, Option.map_bind]
  refine Option.bind_congr fun afterKeyword hkeyword => ?_
  cases afterKeyword with
  | nil => rfl
  | cons separator body =>
    have hbody : '\n' ∉ body := by
      intro feed
      obtain ⟨word, hword, -⟩ := Text.after?_eq_some_iff.1 hkeyword
      have hbehind : '\n' ∈ afterOpener.dropWhile isBlank := by
        rw [hword]
        exact List.mem_append_right word (List.mem_cons_of_mem separator feed)
      rw [Text.after?_beq_eq_some_iff.1 hopener] at noFeed
      exact noFeed (List.mem_append_right opener ((List.dropWhile_sublist isBlank).subset hbehind))
    have hseparator : (decide (separator = ':') || isBlank separator) = isSeparator separator := rfl
    rw [Pattern.kept?_one_andThen_cons, hseparator, Function.comp]
    by_cases visible : body = []
    · have hnothing : kept? bodyPattern [] = none := rfl
      simp [visible, hnothing]
    · rw [kept?_bodyPattern hbody visible]
      by_cases separates : isSeparator separator = true <;> simp [separates, visible]

/-- At one place the pattern keeps what is captured of the marker that begins there. -/
theorem kept?_markerPattern (noFeed : '\n' ∉ text) : kept? (markerPattern kind) text =
    (bodyHere? kind text).map fun body => some (dropCloser body) := by
  have hopener : ∀ opener, kept? (.andThen (literal opener) (announcementPattern kind)) text =
      (bodyBehind? kind text opener).map fun body => some (dropCloser body) := by
    intro opener
    rw [literal, Pattern.kept?_spelled_andThen, kept?_behindOpener noFeed]
  have hbody : bodyHere? kind text =
      (bodyBehind? kind text ['/', '/']).or ((bodyBehind? kind text ['#']).or
        ((bodyBehind? kind text ['/', '*']).or (bodyBehind? kind text ['<', '!', '-', '-']))) := by
    have hcons : ∀ (opener : List Char) (others : List (List Char)),
        (opener :: others).findSome? (bodyBehind? kind text) =
          (bodyBehind? kind text opener).or (others.findSome? (bodyBehind? kind text)) := by
      intro opener others
      rw [List.findSome?_cons]
      cases bodyBehind? kind text opener <;> rfl
    rw [bodyHere?_eq, openers, hcons, hcons, hcons, List.findSome?_singleton]
  rw [markerPattern, openerPattern, Pattern.kept?_orElse_andThen, Pattern.kept?_orElse_andThen,
    Pattern.kept?_orElse_andThen, hopener, hopener, hopener, hopener, hbody, Option.map_or, Option.map_or,
    Option.map_or]

/-- On a line the pattern keeps what is captured of the leftmost marker of the kind. -/
theorem map_kept_search?_markerPattern (noFeed : '\n' ∉ line) :
    (search? (markerPattern kind) line).map Fit.kept =
      (body? kind line).map fun body => some (dropCloser body) := by
  induction line with
  | nil => exact kept?_markerPattern noFeed
  | cons c line ih =>
    have hbehind : '\n' ∉ line := fun feed => noFeed (List.mem_cons_of_mem c feed)
    rw [Pattern.map_kept_search?, kept?_markerPattern noFeed, ih hbehind, body?,
      Option.orElse_eq_orElse, Option.orElse_eq_or, Option.map_or]

/-- The scanner finds what the search for the patterns finds. -/
theorem scanLine_eq_searchLine (noFeed : '\n' ∉ line) : scanLine line = searchLine line := by
  have htext : ∀ body, textKept line (some (dropCloser body)) = textOf line body := by
    intro body
    rw [textOf_eq, textKept, Option.map_some, Option.filter_some]
    by_cases nothing : trimLine (dropCloser body) = []
    · simp [nothing]
    · simp [nothing]
  have hkind : ∀ kind, (body? kind line).map (fun body => (kind, textOf line body)) =
      (search? (markerPattern kind) line).map fun fit => (kind, textKept line fit.kept) := by
    intro kind
    have hsearch : (search? (markerPattern kind) line).map Fit.kept =
        (body? kind line).map fun body => some (dropCloser body) := map_kept_search?_markerPattern noFeed
    have hkept := congrArg (Option.map fun kept => (kind, textKept line kept)) hsearch
    rw [Option.map_map, Option.map_map] at hkept
    simp only [Function.comp_def, htext] at hkept
    exact hkept.symm
  rw [scanLine, searchLine]
  simp only [hkind]

/-! ### The grammar -/

/-- A line has a marker exactly if an opener, blanks, a keyword and a separator stand on it somewhere with
something behind them.  Its kind is the first one that occurs so, its place the leftmost of that kind, and
its text what is captured there without margins, or the line without margins if that is nothing; so the
text is never empty, has no margins and is a part of the line.  The search for the patterns finds the
same. -/
theorem scanLine_grammar (noFeed : '\n' ∉ line) :
    ((scanLine line).isSome ↔ ∃ kind front body, MarkedAt kind line front body) ∧
      (∀ kind text, scanLine line = some (kind, text) ↔ ∃ front body capture,
        IsMarker line kind front body ∧ Captures body capture ∧
          text = if trimLine capture = [] then trimLine line else trimLine capture) ∧
      (∀ kind text, scanLine line = some (kind, text) →
        text ≠ [] ∧ Text.HasNoMargins text ∧ text <:+: line) ∧
      scanLine line = searchLine line := by
  refine ⟨scanLine_isSome_iff, ?_, ?_, scanLine_eq_searchLine noFeed⟩
  · intro kind text
    rw [scanLine_eq_some_iff]
    refine exists_congr fun front => exists_congr fun body => ?_
    constructor
    · rintro ⟨marker, rfl⟩
      exact ⟨dropCloser body, marker, captures_iff.2 rfl, textOf_eq line body⟩
    · rintro ⟨capture, marker, captures, rfl⟩
      rw [← captures_iff.1 captures, ← textOf_eq]
      exact ⟨marker, rfl⟩
  · intro kind text found
    obtain ⟨front, body, marker, rfl⟩ := scanLine_eq_some_iff.1 found
    exact marker.marked.textOf_spec

/-- A Kelvin sign is a letter of a keyword.  The kinds are tried in their order, so where two markers stand
on a line it may be the second one that counts; its closer is not part of the text. -/
theorem scanLine_grammar_kelvin :
    '\n' ∉ "#hac\u212A: a // TODO: fix */".toList ∧
      (∃ kind front body, MarkedAt kind "#hac\u212A: a".toList front body) ∧
      searchLine "#hac\u212A: a".toList = some (.hack, "a".toList) ∧
      searchLine "#hac\u212A: a // TODO: fix */".toList = some (.todo, "fix".toList) := by
  have noFeed : '\n' ∉ "#hac\u212A: a // TODO: fix */".toList := by decide
  have alone : scanLine "#hac\u212A: a".toList = some (.hack, "a".toList) := by decide
  have both : scanLine "#hac\u212A: a // TODO: fix */".toList = some (.todo, "fix".toList) := by decide
  obtain ⟨hsome, -, -, hsearch⟩ :=
    scanLine_grammar (show '\n' ∉ "#hac\u212A: a".toList by decide)
  obtain ⟨-, -, -, hsearchBoth⟩ := scanLine_grammar noFeed
  have hmarked : (scanLine "#hac\u212A: a".toList).isSome := by
    rw [alone]
    rfl
  exact ⟨noFeed, hsome.1 hmarked, hsearch.symm.trans alone, hsearchBoth.symm.trans both⟩

end Line

end CodeCensus.Marker
