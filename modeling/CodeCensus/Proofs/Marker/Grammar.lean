import CodeCensus.Marker.Scan
import CodeCensus.Proofs.Letters
import CodeCensus.Proofs.Margins
import CodeCensus.Proofs.Text

/-!
# The grammar of markers

A marker is announced by a comment opener, blanks, a keyword and a separator, and it needs something
behind the separator.  `Announces` says so without any reading, and `MarkedAt` says where on a line it is
so.  The scanner finds such a place exactly if there is one: the first kind that has any, and the leftmost
place of that kind (`scanLine_eq_some_iff`).

At one place there is at most one opener, since no opener is the beginning of another, and blanks end
where a keyword begins.  So what follows the separator is determined by the place
(`bodyHere?_eq_some_iff`), and "leftmost" is enough to say which marker is meant.
-/

namespace CodeCensus.Marker

open Text (isBlank isMargin trimLine)

/-- Where one element of a list at most leads to anything, it does not matter that it is the first one. -/
theorem findSome?_eq_some_iff_of_unique {α β : Type} {found? : α → Option β} {list : List α} {b : β}
    (unique : ∀ one ∈ list, ∀ two ∈ list, (found? one).isSome → (found? two).isSome → one = two) :
    list.findSome? found? = some b ↔ ∃ a ∈ list, found? a = some b := by
  refine ⟨List.exists_of_findSome?_eq_some, ?_⟩
  rintro ⟨a, ha, hfound⟩
  have hsome : (list.findSome? found?).isSome :=
    List.findSome?_isSome_iff.2 ⟨a, ha, Option.isSome_of_eq_some hfound⟩
  obtain ⟨first, hfirst⟩ := Option.isSome_iff_exists.1 hsome
  obtain ⟨other, hother, hotherFound⟩ := List.exists_of_findSome?_eq_some hfirst
  have hsame : a = other :=
    unique a ha other hother (Option.isSome_of_eq_some hfound) (Option.isSome_of_eq_some hotherFound)
  rw [hfirst, ← hotherFound, ← hsame, hfound]

/-! ### One place -/

/-- A word is the keyword of a kind, in any case. -/
def IsKeyword (kind : Kind) (word : List Char) : Prop :=
  Text.Spells kind.name.toList word

/-- Signs by which an opener is told from what follows it: no other part of an announcement has them. -/
def openerSigns : List Char :=
  ['/', '#', '*', '<']

/-- A text begins with a comment opener, any number of blanks, a keyword of the kind and a colon or a
blank; the body is what follows. -/
def Announces (kind : Kind) (text body : List Char) : Prop :=
  ∃ opener ∈ openers, ∃ blanks word : List Char, ∃ separator : Char,
    text = opener ++ (blanks ++ (word ++ separator :: body)) ∧ (∀ c ∈ blanks, isBlank c) ∧
      IsKeyword kind word ∧ (separator = ':' ∨ isBlank separator)

section Keywords

variable {kind : Kind} {word : List Char}

/-- A keyword is found by folding. -/
theorem isKeyword_iff :
    IsKeyword kind word ↔ List.Forall₂ (fun k c => (k == Text.foldChar c) = true) kind.keyword word := by
  have hkeyword : kind.keyword = kind.name.toList.map Char.toLower := by cases kind <;> decide
  have hletters : ∀ letter ∈ kind.name.toList,
      decide ('A' ≤ letter ∧ letter ≤ 'Z' ∧ letter ≠ 'S') = true := by
    rw [← List.all_eq_true]
    cases kind <;> decide
  rw [hkeyword, List.forall₂_map_left_iff, IsKeyword, Text.Spells, List.forall₂_iff_zip,
    List.forall₂_iff_zip]
  refine and_congr_right fun _ => ⟨fun all letter c pair => ?_, fun all letter c pair => ?_⟩
  · obtain ⟨hlow, hhigh, hs⟩ := of_decide_eq_true (hletters letter (List.of_mem_zip pair).1)
    rw [beq_iff_eq]
    exact (Text.mem_letterCases_iff hlow hhigh hs c).1 (all pair)
  · obtain ⟨hlow, hhigh, hs⟩ := of_decide_eq_true (hletters letter (List.of_mem_zip pair).1)
    exact (Text.mem_letterCases_iff hlow hhigh hs c).2 (beq_iff_eq.1 (all pair))

/-- The letters of a keyword are neither blanks nor signs of an opener. -/
theorem of_mem_keyword (keyword : IsKeyword kind word) {c : Char} (mem : c ∈ word) :
    isBlank c = false ∧ c ∉ openerSigns := by
  have hletters : ∀ c ∈ kind.name.toList.flatMap Text.letterCases,
      decide (isBlank c = false ∧ c ∉ openerSigns) = true := by
    rw [← List.all_eq_true]
    cases kind <;> decide
  have hcase : c ∈ kind.name.toList.flatMap Text.letterCases := by
    obtain ⟨i, hi, rfl⟩ := List.getElem_of_mem mem
    have hlength : i < kind.name.toList.length := List.Forall₂.length_eq keyword ▸ hi
    exact List.mem_flatMap.2
      ⟨kind.name.toList[i], List.getElem_mem hlength, keyword.get hlength hi⟩
  exact of_decide_eq_true (hletters c hcase)

/-- A keyword has letters. -/
theorem ne_nil_of_isKeyword (keyword : IsKeyword kind word) : word ≠ [] := by
  have hletters : kind.name.toList ≠ [] := by cases kind <;> decide
  intro nothing
  have hlength := List.Forall₂.length_eq keyword
  rw [nothing] at hlength
  exact hletters (List.length_eq_zero_iff.1 hlength)

/-- Blanks end where a keyword begins. -/
theorem dropWhile_blanks (keyword : IsKeyword kind word) {blanks : List Char}
    (areBlank : ∀ c ∈ blanks, isBlank c) (rest : List Char) :
    (blanks ++ (word ++ rest)).dropWhile isBlank = word ++ rest := by
  obtain ⟨c, letters, hword⟩ := List.exists_cons_of_ne_nil (ne_nil_of_isKeyword keyword)
  have hletter : isBlank c = false := (of_mem_keyword keyword (hword ▸ List.mem_cons_self)).1
  rw [List.dropWhile_append_of_pos areBlank, hword, List.cons_append,
    List.dropWhile_cons_of_neg (by simp [hletter])]

end Keywords

/-- What follows the separator of a marker that begins with this opener. -/
def bodyBehind? (kind : Kind) (text opener : List Char) : Option (List Char) := do
  let afterOpener ← Text.after? (· == ·) opener text
  let afterKeyword ←
    Text.after? (fun k c => k == Text.foldChar c) kind.keyword (afterOpener.dropWhile isBlank)
  match afterKeyword with
  | separator :: body =>
    if isSeparator separator && !body.isEmpty then some body else none
  | [] => none

theorem bodyHere?_eq (kind : Kind) (text : List Char) :
    bodyHere? kind text = openers.findSome? (bodyBehind? kind text) := rfl

section Here

variable {kind : Kind} {text opener body : List Char}

/-- With a given opener the parts of a marker are read one after the other. -/
theorem bodyBehind?_eq_some_iff : bodyBehind? kind text opener = some body ↔
    body ≠ [] ∧ ∃ blanks word : List Char, ∃ separator : Char,
      text = opener ++ (blanks ++ (word ++ separator :: body)) ∧ (∀ c ∈ blanks, isBlank c) ∧
        IsKeyword kind word ∧ (separator = ':' ∨ isBlank separator) := by
  have hseparator : ∀ c, isSeparator c ↔ c = ':' ∨ isBlank c := by
    intro c
    simp [isSeparator]
  simp only [bodyBehind?, Option.bind_eq_bind, Option.bind_eq_some_iff, Text.after?_beq_eq_some_iff]
  simp only [Text.after?_eq_some_iff, ← isKeyword_iff]
  constructor
  · rintro ⟨afterOpener, rfl, afterKeyword, ⟨word, hword, keyword⟩, hbody⟩
    cases afterKeyword with
    | nil => exact absurd hbody (Option.some_ne_none body).symm
    | cons separator rest =>
      simp only [Option.ite_none_right_eq_some, Bool.and_eq_true, Option.some.injEq] at hbody
      obtain ⟨⟨separates, visible⟩, rfl⟩ := hbody
      have hsplit : afterOpener = afterOpener.takeWhile isBlank ++ (word ++ separator :: rest) := by
        rw [← hword, List.takeWhile_append_dropWhile]
      refine ⟨by simpa using visible, afterOpener.takeWhile isBlank, word, separator, ?_, ?_, keyword,
        (hseparator separator).1 separates⟩
      · exact congrArg (opener ++ ·) hsplit
      · intro c hc
        exact List.mem_takeWhile_imp hc
  · rintro ⟨visible, blanks, word, separator, rfl, areBlank, keyword, separates⟩
    refine ⟨_, rfl, separator :: body, ⟨word, dropWhile_blanks keyword areBlank _, keyword⟩, ?_⟩
    simp [(hseparator separator).2 separates, visible]

/-- No opener is the beginning of another one. -/
theorem opener_unique {other rest behind : List Char} (hopener : opener ∈ openers)
    (hother : other ∈ openers) (same : opener ++ rest = other ++ behind) : opener = other := by
  have hapart : ∀ one ∈ openers, ∀ two ∈ openers, one <+: two → one = two := by decide
  rcases List.append_eq_append_iff.1 same with ⟨more, hmore, -⟩ | ⟨more, hmore, -⟩
  · exact hapart opener hopener other hother ⟨more, hmore.symm⟩
  · exact (hapart other hother opener hopener ⟨more, hmore.symm⟩).symm

/-- What a marker that begins here is about is read off exactly if one begins here. -/
theorem bodyHere?_eq_some_iff :
    bodyHere? kind text = some body ↔ body ≠ [] ∧ Announces kind text body := by
  have hunique : ∀ one ∈ openers, ∀ two ∈ openers, (bodyBehind? kind text one).isSome →
      (bodyBehind? kind text two).isSome → one = two := by
    intro one hone two htwo oneFound twoFound
    obtain ⟨_, hfound⟩ := Option.isSome_iff_exists.1 oneFound
    obtain ⟨_, hfound'⟩ := Option.isSome_iff_exists.1 twoFound
    obtain ⟨-, _, _, _, split, -⟩ := bodyBehind?_eq_some_iff.1 hfound
    obtain ⟨-, _, _, _, split', -⟩ := bodyBehind?_eq_some_iff.1 hfound'
    exact opener_unique hone htwo (split.symm.trans split')
  rw [bodyHere?_eq, findSome?_eq_some_iff_of_unique hunique]
  constructor
  · rintro ⟨opener, hopener, hbody⟩
    obtain ⟨visible, parts⟩ := bodyBehind?_eq_some_iff.1 hbody
    exact ⟨visible, opener, hopener, parts⟩
  · rintro ⟨visible, opener, hopener, parts⟩
    exact ⟨opener, hopener, bodyBehind?_eq_some_iff.2 ⟨visible, parts⟩⟩

end Here

/-! ### Places on a line -/

/-- A marker of the kind is announced on a line behind the front, and the body is what follows its
separator. -/
def AnnouncedAt (kind : Kind) (line front body : List Char) : Prop :=
  ∃ text, line = front ++ text ∧ Announces kind text body

/-- A marker of the kind stands on a line behind the front: it is announced there, and something follows
its separator. -/
def MarkedAt (kind : Kind) (line front body : List Char) : Prop :=
  body ≠ [] ∧ AnnouncedAt kind line front body

section Places

variable {kind : Kind} {c : Char} {line text front body : List Char}

theorem not_announces_nil : ¬ Announces kind [] body := by
  rintro ⟨opener, hopener, blanks, word, separator, split, -⟩
  have hvisible : ∀ opener ∈ openers, opener ≠ [] := by decide
  exact hvisible opener hopener (List.append_eq_nil_iff.1 split.symm).1

theorem not_markedAt_nil : ¬ MarkedAt kind [] front body := by
  rintro ⟨-, text, split, announces⟩
  rw [(List.append_eq_nil_iff.1 split.symm).2] at announces
  exact not_announces_nil announces

/-- A marker with nothing in front of it is one at the beginning of the line. -/
theorem markedAt_front_iff : MarkedAt kind text [] body ↔ bodyHere? kind text = some body := by
  rw [bodyHere?_eq_some_iff, MarkedAt, AnnouncedAt]
  simp

/-- A marker further behind is one of the rest of the line. -/
theorem markedAt_cons_cons_iff {d : Char} :
    MarkedAt kind (c :: line) (d :: front) body ↔ c = d ∧ MarkedAt kind line front body := by
  unfold MarkedAt
  constructor
  · rintro ⟨visible, text, split, announces⟩
    obtain ⟨same, hline⟩ := List.cons.inj split
    exact ⟨same, visible, text, hline, announces⟩
  · rintro ⟨rfl, visible, text, rfl, announces⟩
    exact ⟨visible, text, rfl, announces⟩

/-- The leftmost marker of the kind is found. -/
theorem body?_eq_some_iff : body? kind line = some body ↔ ∃ front, MarkedAt kind line front body ∧
    ∀ other body', MarkedAt kind line other body' → front.length ≤ other.length := by
  -- A place is the front of the line, or it is a place behind the first character.
  induction line with
  | nil =>
    refine iff_of_false (Option.some_ne_none body).symm ?_
    rintro ⟨front, marked, -⟩
    exact not_markedAt_nil marked
  | cons c line ih =>
    rw [body?, Option.orElse_eq_orElse, Option.orElse_eq_or, Option.or_eq_some_iff, ih]
    constructor
    · rintro (here | ⟨notHere, front, marked, leftmost⟩)
      · exact ⟨[], markedAt_front_iff.2 here, fun other _ _ => Nat.zero_le other.length⟩
      · refine ⟨c :: front, markedAt_cons_cons_iff.2 ⟨rfl, marked⟩, fun other body' hother => ?_⟩
        cases other with
        | nil =>
          rw [markedAt_front_iff, notHere] at hother
          exact absurd hother (Option.some_ne_none body').symm
        | cons d other =>
          have hbehind : front.length ≤ other.length :=
            leftmost other body' (markedAt_cons_cons_iff.1 hother).2
          exact Nat.succ_le_succ hbehind
    · rintro ⟨front, marked, leftmost⟩
      cases front with
      | nil => exact Or.inl (markedAt_front_iff.1 marked)
      | cons d front =>
        have notHere : bodyHere? kind (c :: line) = none := by
          rw [Option.eq_none_iff_forall_ne_some]
          intro other here
          exact absurd (leftmost [] other (markedAt_front_iff.2 here)) (by simp)
        refine Or.inr ⟨notHere, front, (markedAt_cons_cons_iff.1 marked).2, fun other body' hother => ?_⟩
        have hbehind : (d :: front).length ≤ (c :: other).length :=
          leftmost (c :: other) body' (markedAt_cons_cons_iff.2 ⟨rfl, hother⟩)
        exact Nat.le_of_succ_le_succ hbehind

/-- Nothing is found exactly if there is no marker of the kind. -/
theorem body?_eq_none_iff : body? kind line = none ↔ ∀ front body, ¬ MarkedAt kind line front body := by
  constructor
  · intro notFound front body marked
    induction front generalizing line with
    | nil =>
      cases line with
      | nil => exact not_markedAt_nil marked
      | cons c line =>
        rw [body?, markedAt_front_iff.1 marked] at notFound
        exact absurd notFound (Option.some_ne_none body)
    | cons d front ih =>
      cases line with
      | nil => exact not_markedAt_nil marked
      | cons c line =>
        rw [body?, Option.orElse_eq_orElse, Option.orElse_eq_or, Option.or_eq_none_iff] at notFound
        exact ih notFound.2 (markedAt_cons_cons_iff.1 marked).2
  · intro nowhere
    rw [Option.eq_none_iff_forall_ne_some]
    intro body found
    obtain ⟨front, marked, -⟩ := body?_eq_some_iff.1 found
    exact nowhere front body marked

end Places

/-! ### The marker of a line -/

/-- The kinds that a line is tried for before it is tried for this one. -/
def Kind.earlier (kind : Kind) : List Kind :=
  Kind.all.takeWhile (· ≠ kind)

/-- The marker of a line: of the first kind that has any, the leftmost one. -/
structure IsMarker (line : List Char) (kind : Kind) (front body : List Char) : Prop where
  marked : MarkedAt kind line front body
  leftmost : ∀ other body', MarkedAt kind line other body' → front.length ≤ other.length
  first : ∀ other ∈ kind.earlier, ∀ front body, ¬ MarkedAt other line front body

/-- Each kind stands behind those that are looked for before it. -/
theorem Kind.all_eq (kind : Kind) : ∃ later, Kind.all = kind.earlier ++ kind :: later := by
  cases kind <;> exact ⟨_, rfl⟩

/-- Trying the kinds in their order finds what belongs to the first one that has something. -/
theorem findSome?_kinds_eq_some_iff {α : Type} {found? : Kind → Option α} {a : α} :
    Kind.all.findSome? found? = some a ↔
      ∃ kind, found? kind = some a ∧ ∀ other ∈ kind.earlier, found? other = none := by
  rw [List.findSome?_eq_some_iff]
  constructor
  · rintro ⟨earlier, kind, later, split, here, before⟩
    have hdistinct : (earlier ++ kind :: later).Nodup := by
      rw [← split]
      decide
    have hearlier : kind.earlier = earlier := by
      have hother : ∀ other ∈ earlier, decide (other ≠ kind) = true := by
        intro other hother
        have hne : other ≠ kind := (List.nodup_append.1 hdistinct).2.2 other hother kind List.mem_cons_self
        simpa using hne
      rw [Kind.earlier, split, List.takeWhile_append_of_pos hother, List.takeWhile_cons_of_neg (by simp),
        List.append_nil]
    exact ⟨kind, here, fun other hother => before other (hearlier ▸ hother)⟩
  · rintro ⟨kind, here, before⟩
    obtain ⟨later, split⟩ := kind.all_eq
    exact ⟨kind.earlier, kind, later, split, here, before⟩

section Line

variable {kind : Kind} {line text : List Char}

/-- The body of a marker is what the line is found to have for its kind. -/
theorem IsMarker.body?_eq {front body : List Char} (marker : IsMarker line kind front body) :
    body? kind line = some body :=
  body?_eq_some_iff.2 ⟨front, marker.marked, marker.leftmost⟩

/-- The scanner finds the marker of a line and takes its text from its body. -/
theorem scanLine_eq_some_iff : scanLine line = some (kind, text) ↔
    ∃ front body, IsMarker line kind front body ∧ textOf line body = text := by
  rw [scanLine, findSome?_kinds_eq_some_iff]
  constructor
  · rintro ⟨found, here, before⟩
    obtain ⟨body, hbody, hpair⟩ := Option.map_eq_some_iff.1 here
    obtain ⟨rfl, rfl⟩ := Prod.mk.inj hpair
    obtain ⟨front, marked, leftmost⟩ := body?_eq_some_iff.1 hbody
    refine ⟨front, body, ⟨marked, leftmost, fun other hother => ?_⟩, rfl⟩
    exact body?_eq_none_iff.1 (Option.map_eq_none_iff.1 (before other hother))
  · rintro ⟨front, body, marker, rfl⟩
    refine ⟨kind, by rw [marker.body?_eq, Option.map_some], fun other hother => ?_⟩
    rw [body?_eq_none_iff.2 (marker.first other hother), Option.map_none]

/-- A line has a marker exactly if one stands somewhere on it. -/
theorem scanLine_isSome_iff :
    (scanLine line).isSome ↔ ∃ kind front body, MarkedAt kind line front body := by
  constructor
  · intro found
    obtain ⟨⟨kind, text⟩, hfound⟩ := Option.isSome_iff_exists.1 found
    obtain ⟨front, body, marker, -⟩ := scanLine_eq_some_iff.1 hfound
    exact ⟨kind, front, body, marker.marked⟩
  · rintro ⟨kind, front, body, marked⟩
    have hbody : (body? kind line).isSome := by
      rw [Option.isSome_iff_ne_none]
      intro notFound
      exact body?_eq_none_iff.1 notFound front body marked
    rw [scanLine, List.findSome?_isSome_iff]
    refine ⟨kind, by cases kind <;> decide, ?_⟩
    rw [Option.isSome_map]
    exact hbody

end Line

/-! ### The text of a marker -/

/-- The texts that close a comment, as far as markers are concerned. -/
def closers : List (List Char) :=
  [['*', '/'], ['-', '-', '>']]

/-- What is captured of a body: all of it but one closer at its end, as long as something is left in front
of the closer. -/
def Captures (body capture : List Char) : Prop :=
  (capture ≠ [] ∧ ∃ closer ∈ closers, body = capture ++ closer) ∨
    (capture = body ∧ ∀ closer ∈ closers, ∀ inner, inner ≠ [] → body ≠ inner ++ closer)

/-- What stands in front of a closer at the end of a body. -/
def inFrontOf? (body closer : List Char) : Option (List Char) :=
  if closer.isSuffixOf body && closer.length < body.length then
    some (body.take (body.length - closer.length))
  else none

theorem dropCloser_eq (body : List Char) :
    dropCloser body = (closers.findSome? (inFrontOf? body)).getD body := by
  have hboth : closers.findSome? (inFrontOf? body) =
      (inFrontOf? body ['*', '/'] <|> inFrontOf? body ['-', '-', '>']) := by
    rw [closers, List.findSome?_cons, List.findSome?_singleton]
    cases inFrontOf? body ['*', '/'] <;> rfl
  rw [hboth]
  rfl

section Texts

variable {kind : Kind} {line front body closer inner capture text : List Char}

/-- A closer is taken off at the end of a body, if something is in front of it. -/
theorem inFrontOf?_eq_some_iff : inFrontOf? body closer = some inner ↔ inner ≠ [] ∧ body = inner ++ closer := by
  rw [inFrontOf?, Option.ite_none_right_eq_some, Bool.and_eq_true, List.isSuffixOf_iff_suffix,
    decide_eq_true_iff, Option.some.injEq]
  constructor
  · rintro ⟨⟨⟨inside, rfl⟩, hlt⟩, rfl⟩
    have htake : (inside ++ closer).take ((inside ++ closer).length - closer.length) = inside := by
      rw [List.length_append, Nat.add_sub_cancel, List.take_left]
    rw [htake]
    rw [List.length_append] at hlt
    exact ⟨List.ne_nil_of_length_pos (by omega), rfl⟩
  · rintro ⟨visible, rfl⟩
    have hpos : 0 < inner.length := List.length_pos_of_ne_nil visible
    rw [List.length_append, Nat.add_sub_cancel, List.take_left]
    exact ⟨⟨List.suffix_append inner closer, by omega⟩, rfl⟩

/-- A body ends with one closer at most. -/
theorem closer_unique {other behind : List Char} (hcloser : closer ∈ closers) (hother : other ∈ closers)
    (same : inner ++ closer = behind ++ other) : closer = other := by
  have hlast : ∀ one ∈ closers, ∀ two ∈ closers, one.getLast? = two.getLast? → one = two := by decide
  have hvisible : ∀ one ∈ closers, one ≠ [] := by decide
  apply hlast closer hcloser other hother
  rw [← List.getLast?_append_of_ne_nil inner (hvisible closer hcloser), same,
    List.getLast?_append_of_ne_nil behind (hvisible other hother)]

/-- What stands in front of the closer of a body, if it has one. -/
theorem findSome?_inFrontOf?_eq_some_iff : closers.findSome? (inFrontOf? body) = some inner ↔
    inner ≠ [] ∧ ∃ closer ∈ closers, body = inner ++ closer := by
  have hunique : ∀ one ∈ closers, ∀ two ∈ closers, (inFrontOf? body one).isSome →
      (inFrontOf? body two).isSome → one = two := by
    intro one hone two htwo oneFound twoFound
    obtain ⟨_, hfound⟩ := Option.isSome_iff_exists.1 oneFound
    obtain ⟨_, hfound'⟩ := Option.isSome_iff_exists.1 twoFound
    have split := (inFrontOf?_eq_some_iff.1 hfound).2
    exact closer_unique hone htwo (split.symm.trans (inFrontOf?_eq_some_iff.1 hfound').2)
  rw [findSome?_eq_some_iff_of_unique hunique]
  constructor
  · rintro ⟨closer, hcloser, found⟩
    obtain ⟨visible, split⟩ := inFrontOf?_eq_some_iff.1 found
    exact ⟨visible, closer, hcloser, split⟩
  · rintro ⟨visible, closer, hcloser, split⟩
    exact ⟨closer, hcloser, inFrontOf?_eq_some_iff.2 ⟨visible, split⟩⟩

/-- The text of a marker is taken from what is captured. -/
theorem captures_iff : Captures body capture ↔ dropCloser body = capture := by
  rw [dropCloser_eq]
  constructor
  · rintro (closed | ⟨rfl, uncut⟩)
    · rw [findSome?_inFrontOf?_eq_some_iff.2 closed]
      rfl
    · have hnothing : closers.findSome? (inFrontOf? capture) = none := by
        rw [Option.eq_none_iff_forall_ne_some]
        intro inner found
        obtain ⟨visible, closer, hcloser, split⟩ := findSome?_inFrontOf?_eq_some_iff.1 found
        exact uncut closer hcloser inner visible split
      rw [hnothing]
      rfl
  · rintro rfl
    cases hfound : closers.findSome? (inFrontOf? body) with
    | some inner => exact Or.inl (findSome?_inFrontOf?_eq_some_iff.1 hfound)
    | none =>
      refine Or.inr ⟨rfl, fun closer hcloser inner visible split => ?_⟩
      have hsome : closers.findSome? (inFrontOf? body) = some inner :=
        findSome?_inFrontOf?_eq_some_iff.2 ⟨visible, closer, hcloser, split⟩
      rw [hfound] at hsome
      exact Option.some_ne_none inner hsome.symm

/-- A body without its closer is the front of the body. -/
theorem dropCloser_prefix_self (body : List Char) : dropCloser body <+: body := by
  rcases captures_iff.2 (Eq.refl (dropCloser body)) with ⟨-, closer, -, split⟩ | ⟨same, -⟩
  · exact ⟨closer, split.symm⟩
  · rw [same]

/-- A line with a marker has something on it. -/
theorem MarkedAt.trimLine_ne_nil (marked : MarkedAt kind line front body) : trimLine line ≠ [] := by
  have hopeners : ∀ opener ∈ openers, opener.any (!isMargin ·) = true := by decide
  obtain ⟨-, text, rfl, opener, hopener, blanks, word, separator, rfl, -⟩ := marked
  obtain ⟨c, hc, hvisible⟩ := List.any_eq_true.1 (hopeners opener hopener)
  intro nothing
  have hmargin : isMargin c := by
    apply Text.trimLine_eq_nil_iff.1 nothing
    simp [hc]
  simp [hmargin] at hvisible

/-- What follows the separator is the end of the line. -/
theorem MarkedAt.suffix (marked : MarkedAt kind line front body) : body <:+ line := by
  obtain ⟨-, text, rfl, opener, -, blanks, word, separator, rfl, -⟩ := marked
  exact ⟨front ++ opener ++ blanks ++ word ++ [separator], by simp⟩

/-- The text of a marker is what is captured without its margins, or the whole line without its margins
where that is nothing. -/
theorem textOf_eq (line body : List Char) : textOf line body =
    if trimLine (dropCloser body) = [] then trimLine line else trimLine (dropCloser body) := by
  simp only [textOf, List.isEmpty_iff]

/-- The text is never empty, has no margins and is a part of the line. -/
theorem MarkedAt.textOf_spec (marked : MarkedAt kind line front body) :
    textOf line body ≠ [] ∧ Text.HasNoMargins (textOf line body) ∧ textOf line body <:+: line := by
  rw [textOf_eq]
  by_cases nothing : trimLine (dropCloser body) = []
  · rw [if_pos nothing]
    exact ⟨marked.trimLine_ne_nil, Text.hasNoMargins_trimLine line, Text.trimLine_infix_self line⟩
  · rw [if_neg nothing]
    have hinfix : trimLine (dropCloser body) <:+: line :=
      (Text.trimLine_infix_self _).trans ((dropCloser_prefix_self body).isInfix.trans marked.suffix.isInfix)
    exact ⟨nothing, Text.hasNoMargins_trimLine (dropCloser body), hinfix⟩

end Texts

end CodeCensus.Marker
