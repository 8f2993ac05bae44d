import CodeCensus.Glob.Pattern
import Mathlib.Data.List.Basic

/-!
# What globs accept

A glob is matched by handing each part what has to accept the rest.  What this comes to is said by
`Matches`: which runs of bytes a glob describes, part by part (`accepts_iff`).

A pattern is read from its front on, and how a part of it is read depends on what follows only where that
part ends in stars.  So a pattern without two stars at its end is read in the same way if a slash and
more come behind it (`read_append_slash`).
-/

namespace CodeCensus.Glob

/-! ### Matching -/

/-- The runs of bytes that a glob describes. -/
def Matches : Glob → List UInt8 → Prop
  | empty, bytes => bytes = []
  | one set, bytes => ∃ byte, bytes = [byte] ∧ set.has byte
  | run set, bytes => ∀ byte ∈ bytes, set.has byte
  | both first second, bytes =>
    ∃ front back, bytes = front ++ back ∧ first.Matches front ∧ second.Matches back
  | either first second, bytes => first.Matches bytes ∨ second.Matches bytes

/-- A run of bytes of a set may end at any place from which the rest is accepted. -/
theorem runThen_iff {set : ByteSet} {rest : List UInt8 → Bool} {bytes : List UInt8} :
    runThen set rest bytes ↔
      ∃ front back, bytes = front ++ back ∧ (∀ byte ∈ front, set.has byte) ∧ rest back := by
  induction bytes with
  | nil =>
    rw [runThen]
    constructor
    · intro accepted
      exact ⟨[], [], rfl, List.forall_mem_nil _, accepted⟩
    · rintro ⟨front, back, same, _, accepted⟩
      obtain ⟨rfl, rfl⟩ := List.append_eq_nil_iff.1 same.symm
      exact accepted
  | cons byte bytes ih =>
    rw [runThen, Bool.or_eq_true, Bool.and_eq_true, ih]
    constructor
    · rintro (accepted | ⟨has, front, back, rfl, all, accepted⟩)
      · exact ⟨[], byte :: bytes, rfl, List.forall_mem_nil _, accepted⟩
      · exact ⟨byte :: front, back, rfl, List.forall_mem_cons.2 ⟨has, all⟩, accepted⟩
    · rintro ⟨front, back, same, all, accepted⟩
      cases front with
      | nil => exact .inl (same ▸ accepted)
      | cons first front =>
        obtain ⟨rfl, rfl⟩ := List.cons.inj same
        obtain ⟨has, all⟩ := List.forall_mem_cons.1 all
        exact .inr ⟨has, front, back, rfl, all, accepted⟩

/-- Bytes are accepted if the glob matches a front of them and the rest is accepted. -/
theorem acceptsThen_iff {glob : Glob} {rest : List UInt8 → Bool} {bytes : List UInt8} :
    glob.acceptsThen rest bytes ↔
      ∃ front back, bytes = front ++ back ∧ glob.Matches front ∧ rest back := by
  -- What comes behind a glob is itself a glob in the case of two in a row, so it is kept general.
  induction glob generalizing rest bytes with
  | empty => simp [acceptsThen, Matches]
  | one set =>
    cases bytes with
    | nil => simp [acceptsThen, Matches]
    | cons byte bytes =>
      rw [acceptsThen, Bool.and_eq_true]
      constructor
      · rintro ⟨has, accepted⟩
        exact ⟨[byte], bytes, rfl, ⟨byte, rfl, has⟩, accepted⟩
      · rintro ⟨_, back, same, ⟨_, rfl, has⟩, accepted⟩
        cases same
        exact ⟨has, accepted⟩
  | run set => exact runThen_iff
  | both first second ihFirst ihSecond =>
    rw [acceptsThen, ihFirst]
    simp only [ihSecond]
    constructor
    · rintro ⟨front, _, rfl, hfirst, middle, back, rfl, hsecond, accepted⟩
      exact ⟨front ++ middle, back, (List.append_assoc _ _ _).symm,
        ⟨front, middle, rfl, hfirst, hsecond⟩, accepted⟩
    · rintro ⟨_, back, rfl, ⟨front, middle, rfl, hfirst, hsecond⟩, accepted⟩
      exact ⟨front, middle ++ back, List.append_assoc _ _ _, hfirst, middle, back, rfl, hsecond,
        accepted⟩
  | either first second ihFirst ihSecond =>
    rw [acceptsThen, Bool.or_eq_true, ihFirst, ihSecond]
    simp only [Matches, or_and_right, and_or_left, exists_or]

/-- A glob accepts the bytes that it matches. -/
theorem accepts_iff {glob : Glob} {bytes : List UInt8} : glob.accepts bytes ↔ glob.Matches bytes := by
  rw [accepts, acceptsThen_iff]
  simp [List.isEmpty_iff]

/-! ### Globs one after the other -/

/-- A glob followed by another one matches what the two match one after the other, even if one of them is
empty. -/
theorem matches_andThen {first second : Glob} {bytes : List UInt8} :
    (first.andThen second).Matches bytes ↔ (both first second).Matches bytes := by
  unfold andThen
  split
  · next empty => simp [empty, Matches]
  · split
    · next empty => simp [empty, Matches]
    · rfl

/-- A sequence begins with its first glob. -/
theorem matches_sequence_cons {glob : Glob} {globs : List Glob} {bytes : List UInt8} :
    (sequence (glob :: globs)).Matches bytes ↔ (both glob (sequence globs)).Matches bytes :=
  matches_andThen

/-- Two sequences in a row match two matches in a row. -/
theorem Matches.sequence_append {globs others : List Glob} {front back : List UInt8}
    (matched : (sequence globs).Matches front) (matched' : (sequence others).Matches back) :
    (sequence (globs ++ others)).Matches (front ++ back) := by
  induction globs generalizing front with
  | nil =>
    obtain rfl : front = [] := matched
    exact matched'
  | cons glob globs ih =>
    obtain ⟨first, rest, rfl, hfirst, hrest⟩ := matches_sequence_cons.1 matched
    rw [List.cons_append, matches_sequence_cons, List.append_assoc]
    exact ⟨first, rest ++ back, rfl, hfirst, ih hrest⟩

theorem has_single {byte other : UInt8} : ByteSet.has (.single other) byte ↔ byte = other := by
  unfold ByteSet.has ByteSet.single
  simp only [List.any_cons, List.any_nil, Bool.or_false, bne_iff_ne, ne_eq, Bool.not_eq_false,
    Bool.and_eq_true, decide_eq_true_eq]
  exact ⟨fun both => UInt8.le_antisymm both.2 both.1, fun same => same ▸ ⟨UInt8.le_refl _, UInt8.le_refl _⟩⟩

/-- Inside a name stands any byte but a slash. -/
theorem has_insideName {byte : UInt8} : ByteSet.has insideName byte ↔ byte ≠ 0x2F := by
  have hnegated : ByteSet.has insideName byte = !ByteSet.has (.single 0x2F) byte := by
    unfold ByteSet.has insideName ByteSet.single
    simp
  rw [hnegated, Bool.not_eq_true', ← Bool.not_eq_true, has_single]

theorem has_all {byte : UInt8} : ByteSet.has .all byte := rfl

theorem matches_separator {bytes : List UInt8} : separator.Matches bytes ↔ bytes = [0x2F] := by
  have hseparator : separator = .one (.single 0x2F) := by decide
  rw [hseparator, Matches]
  simp only [has_single, exists_eq_right]

/-- Directories in between and a name are matched by what stands below a directory. -/
theorem matches_between_star {inner : List UInt8} {name : List UInt8} (noSlash : 0x2F ∉ name)
    (separated : inner = [] ∨ inner.getLast? = some 0x2F) :
    (sequence [Token.between.glob, Token.star.glob]).Matches (0x2F :: inner ++ name) := by
  have hstar : (sequence [Token.star.glob]).Matches name := by
    rw [matches_sequence_cons]
    refine ⟨name, [], (List.append_nil _).symm, fun byte mem => ?_, rfl⟩
    exact has_insideName.2 fun same => noSlash (same ▸ mem)
  rw [matches_sequence_cons]
  refine ⟨0x2F :: inner, name, rfl, ?_, hstar⟩
  rcases separated with rfl | last
  · exact .inl (matches_separator.2 rfl)
  · obtain ⟨before, rfl⟩ := List.getLast?_eq_some_iff.1 last
    refine .inr ⟨[0x2F], before ++ [0x2F], rfl, matches_separator.2 rfl, before, [0x2F], rfl, ?_,
      matches_separator.2 rfl⟩
    exact fun byte _ => has_all

/-! ### Reading -/

/-- What comes behind a class does not change whether it is negated, if the class has begun. -/
theorem negation_append {input : List Char} (ne_nil : (negation input).2 ≠ []) (more : List Char) :
    negation (input ++ more) = ((negation input).1, (negation input).2 ++ more) := by
  cases input with
  | nil => exact absurd rfl ne_nil
  | cons c rest =>
    by_cases bang : c = '!'
    · subst bang
      rfl
    · by_cases caret : c = '^'
      · subst caret
        rfl
      · simp [negation, bang, caret]

/-- What has been read if a class has been read: its first character, its ranges and its bracket. -/
theorem exists_of_classOf? {input after : List Char} {set : ByteSet}
    (h : classOf? input = .ok (some (set, after))) : ∃ first rest ranges bracket,
      (negation input).2 = first :: rest ∧
      rangesFrom first first (rest.takeWhile (· != ']')) = .ok ranges ∧
      rest.dropWhile (· != ']') = bracket :: after ∧
      set = ⟨ranges.flatMap bytesOfRange, (negation input).1⟩ := by
  unfold classOf? at h
  split at h
  · cases h
  · next negated first rest hinput =>
    cases hranges : rangesFrom first first (rest.takeWhile (· != ']')) with
    | error e =>
      rw [hranges] at h
      cases h
    | ok ranges =>
      rw [hranges] at h
      dsimp only [bind, Except.bind] at h
      split at h
      · cases h
      · next bracket found hrest =>
        cases h
        exact ⟨first, rest, ranges, bracket, by rw [hinput], hranges, hrest, by rw [hinput]⟩

theorem negation_suffix (input : List Char) : (negation input).2 <:+ input := by
  unfold negation
  split
  · exact List.suffix_cons _ _
  · exact List.suffix_cons _ _
  · exact List.suffix_rfl

theorem classOf?_suffix {input after : List Char} {set : ByteSet}
    (h : classOf? input = .ok (some (set, after))) : after <:+ input := by
  obtain ⟨first, rest, _, bracket, hinput, _, hrest, _⟩ := exists_of_classOf? h
  have hfirst : first :: rest <:+ input := hinput ▸ negation_suffix input
  have hbracket : bracket :: after <:+ rest := hrest ▸ List.dropWhile_suffix _
  exact ((List.suffix_cons bracket after).trans hbracket).trans
    ((List.suffix_cons first rest).trans hfirst)

/-- A class ends at its bracket, whatever comes behind it. -/
theorem classOf?_append {input after : List Char} {set : ByteSet}
    (h : classOf? input = .ok (some (set, after))) (more : List Char) :
    classOf? (input ++ more) = .ok (some (set, after ++ more)) := by
  obtain ⟨first, rest, ranges, bracket, hinput, hranges, hrest, rfl⟩ := exists_of_classOf? h
  have hnegation := negation_append (hinput ▸ List.cons_ne_nil first rest) more
  rw [hinput] at hnegation
  -- The closing bracket stands in `rest`, and so both parts of `rest` stay what they are.
  have hlength : (rest.takeWhile (· != ']')).length ≠ rest.length := by
    have hsplit := congrArg List.length (List.takeWhile_append_dropWhile (p := (· != ']')) (l := rest))
    rw [List.length_append, hrest, List.length_cons] at hsplit
    omega
  unfold classOf?
  rw [hnegation]
  dsimp only [List.cons_append]
  rw [List.takeWhile_append, if_neg hlength, hranges, List.dropWhile_append, hrest]
  rfl

namespace Reading

/-- What two stars mean is known from the character behind them, and from nothing further. -/
theorem stars_append {reading : Reading} {previous : Option Char} {rest : List Char}
    (ne_nil : rest ≠ []) (more : List Char) :
    reading.stars previous (rest ++ more) = reading.stars previous rest := by
  have hempty : (rest ++ more).isEmpty = rest.isEmpty := by
    cases rest <;> simp_all
  have hhead : (rest ++ more).head? = rest.head? := List.head?_append_of_ne_nil _ ne_nil
  unfold stars
  rw [hempty, hhead]

/-- Stars only take a slash with them if there is one. -/
theorem head?_of_stars {reading next : Reading} {previous : Option Char} {rest : List Char}
    (h : reading.stars previous rest = (next, true)) : rest.head? = some '/' := by
  unfold stars at h
  dsimp only at h
  split_ifs at h <;> simp_all

/-- In a pattern that has to be right, a bracket opens a class. -/
theorem read_bracket (previous : Option Char) (reading : Reading) (rest : List Char) :
    read .strict previous reading ('[' :: rest) =
      match classOf? rest with
      | .error e => throw e
      | .ok (some (set, after)) => read .strict (some ']') (reading.push (.oneOf set)) after
      | .ok none => throw .openClass := by
  rw [read, if_neg (by decide)]
  split <;> simp_all

/-- A pattern begins with a token, which is read in the same way whatever comes behind the pattern. -/
structure Step (previous : Option Char) (reading : Reading) (input : List Char) (last : Option Char)
    (next : Reading) (rest : List Char) : Prop where
  suffix : rest <:+ input
  shorter : rest.length < input.length
  reads : ∀ more : List Char, more.head? ≠ some '*' →
    read .strict previous reading (input ++ more) = read .strict last next (rest ++ more)
  token : rest = [] → input.getLast? ≠ some '/' → next.tokens.head? ≠ some .anywhere

/-- A single character is a step, if it is read alike in front of anything that is no star. -/
theorem Step.ofChar {previous last : Option Char} {reading next : Reading} {c : Char}
    {rest : List Char} (reads : ∀ more : List Char, more.head? ≠ some '*' →
      read .strict previous reading (c :: (rest ++ more)) = read .strict last next (rest ++ more))
    (token : next.tokens.head? ≠ some .anywhere) :
    Step previous reading (c :: rest) last next rest :=
  ⟨List.suffix_cons c rest, Nat.lt_succ_self _, reads, fun _ _ => token⟩

/-- The rest of the pattern is what the reading goes on with. -/
theorem Step.read_eq {previous last : Option Char} {reading next : Reading} {input rest : List Char}
    (step : Step previous reading input last next rest) :
    read .strict previous reading input = read .strict last next rest := by
  have hreads := step.reads [] (by simp)
  rwa [List.append_nil, List.append_nil] at hreads

/-- A pattern that can be read has a first step, unless it ends in two stars. -/
theorem exists_step {previous : Option Char} {reading after : Reading} {input : List Char}
    (ne_nil : input ≠ []) (noStars : ¬ ['*', '*'] <:+ input)
    (h : read .strict previous reading input = .ok after) :
    ∃ last next rest, Step previous reading input last next rest := by
  -- One case for each way to go on; those that end in an error are excluded by `h`.
  generalize hbrackets : Brackets.strict = brackets at h
  fun_cases read brackets previous reading input with
  | case1 => exact absurd rfl ne_nil
  | case2 rest => exact ⟨_, _, _, .ofChar (fun more _ => read.eq_2 ..) (by simp [push])⟩
  | case3 rest next hstars =>
    have hrest : rest ≠ [] := fun empty => noStars (empty ▸ List.suffix_rfl)
    refine ⟨some '*', next, rest, List.suffix_append ['*', '*'] rest, ?_, ?_, fun empty => ?_⟩
    · rw [List.length_cons, List.length_cons]
      omega
    · intro more _
      rw [List.cons_append, List.cons_append, read.eq_3, stars_append hrest, hstars]
    · exact absurd empty hrest
  | case4 rest next hstars =>
    obtain ⟨rest, rfl⟩ := List.head?_eq_some_iff.1 (head?_of_stars hstars)
    refine ⟨some '/', next, rest, List.suffix_append ['*', '*', '/'] rest, ?_, ?_, ?_⟩
    · rw [List.length_cons, List.length_cons, List.length_cons]
      omega
    · intro more _
      rw [List.cons_append, List.cons_append, read.eq_3, stars_append (List.cons_ne_nil _ _), hstars]
      rfl
    · rintro rfl noSlash
      exact absurd rfl noSlash
  | case5 rest single =>
    refine ⟨_, _, _, .ofChar (fun more hmore => read.eq_4 _ _ _ _ fun others same => ?_) (by simp [push])⟩
    cases rest with
    | nil => exact hmore (congrArg List.head? same)
    | cons c rest =>
      obtain ⟨rfl, _⟩ := List.cons.inj same
      exact single rest rfl
  | case6 rest plain => exact absurd (hbrackets.trans plain) (by decide)
  | case7 rest _ e hclass =>
    subst hbrackets
    rw [read_bracket, hclass] at h
    cases h
  | case8 rest _ set found hclass hlength =>
    refine ⟨some ']', reading.push (.oneOf set), found, ?_, ?_, ?_, fun _ _ => by simp [push]⟩
    · exact (classOf?_suffix hclass).trans (List.suffix_cons '[' rest)
    · rw [List.length_cons]
      omega
    · intro more _
      rw [List.cons_append, read_bracket, classOf?_append hclass more]
  | case9 rest _ hclass =>
    subst hbrackets
    rw [read_bracket, hclass] at h
    cases h
  | case10 rest notPlain hclass notStrict => exact absurd hbrackets.symm notStrict
  | case11 rest => exact ⟨_, _, _, .ofChar (fun more _ => read.eq_6 ..) (by simp [openGroup])⟩
  | case12 rest =>
    subst hbrackets
    rw [read] at h
    cases hclose : reading.closeGroup with
    | error e =>
      rw [hclose] at h
      cases h
    | ok next =>
      refine ⟨some '\x7d', next, rest, .ofChar (fun more _ => ?_) ?_⟩
      · rw [read, hclose]
        rfl
      · unfold closeGroup at hclose
        split at hclose
        · cases hclose
        · cases hclose
          simp
  | case13 rest =>
    refine ⟨_, _, _, .ofChar (fun more _ => read.eq_8 ..) ?_⟩
    unfold comma
    split <;> simp [push]
  | case14 c rest =>
    refine ⟨some c, reading.push (.literal c), rest, List.suffix_append ['\\', c] rest, ?_, ?_,
      fun _ _ => by simp [push]⟩
    · rw [List.length_cons, List.length_cons]
      omega
    · exact fun more _ => read.eq_9 ..
  | case15 =>
    rw [read] at h
    cases h
  | case16 c rest question stars star bracket brace closing comma escape backslash =>
    have hescape : c ≠ '\\' := by
      intro same
      cases rest with
      | nil => exact backslash same rfl
      | cons d rest => exact escape d rest same rfl
    refine ⟨some c, reading.push (.literal c), rest, .ofChar (fun more _ => ?_) (by simp [push])⟩
    exact read.eq_11 _ _ _ _ _ question (fun _ same _ => star same) star bracket brace closing comma
      (fun _ _ same _ => hescape same) fun same _ => hescape same

/-- Reading a pattern goes on behind its end as if it had been read alone. -/
theorem read_append {previous : Option Char} {reading after : Reading} {input : List Char}
    (noStars : ¬ ['*', '*'] <:+ input) (h : read .strict previous reading input = .ok after) :
    ∃ last, ∀ more : List Char, more.head? ≠ some '*' →
      read .strict previous reading (input ++ more) = read .strict last after more := by
  by_cases ne_nil : input = []
  · subst ne_nil
    rw [read] at h
    cases h
    exact ⟨previous, fun more _ => rfl⟩
  · obtain ⟨middle, next, rest, step⟩ := exists_step ne_nil noStars h
    rw [step.read_eq] at h
    obtain ⟨last, hlast⟩ := read_append (fun stars => noStars (stars.trans step.suffix)) h
    exact ⟨last, fun more hmore => by rw [step.reads more hmore, hlast more hmore]⟩
termination_by input.length
decreasing_by exact step.shorter

/-- Only a pattern that ends in a slash or in stars has directories at its end. -/
theorem head?_tokens_of_read {previous : Option Char} {reading after : Reading} {input : List Char}
    (ne_nil : input ≠ []) (noStars : ¬ ['*', '*'] <:+ input) (noSlash : input.getLast? ≠ some '/')
    (h : read .strict previous reading input = .ok after) :
    after.tokens.head? ≠ some .anywhere := by
  obtain ⟨middle, next, rest, step⟩ := exists_step ne_nil noStars h
  rw [step.read_eq] at h
  by_cases last : rest = []
  · subst last
    rw [read] at h
    cases h
    exact step.token rfl noSlash
  · refine head?_tokens_of_read last (fun stars => noStars (stars.trans step.suffix)) ?_ h
    obtain ⟨front, rfl⟩ := step.suffix
    rwa [List.getLast?_append_of_ne_nil _ last] at noSlash
termination_by input.length
decreasing_by exact step.shorter

/-- What stands inside a directory is read as directories in between and a name. -/
theorem read_inside {after : Reading} {text : List Char} (noStars : ¬ ['*', '*'] <:+ text)
    (h : read .strict none {} text = .ok after) :
    read .strict none {} (text ++ ['/', '*', '*', '/', '*']) =
      .ok ⟨.star :: .between :: after.tokens, after.groups⟩ := by
  obtain ⟨last, hlast⟩ := read_append noStars h
  rw [hlast _ (by simp)]
  simp [read, stars, push, turn, pure, Except.pure]

end Reading

/-- The glob of at least two tokens is the sequence of their globs, the tokens standing in reverse. -/
theorem globOf_cons_cons (last second : Token) (tokens : List Token) :
    Reading.globOf (last :: second :: tokens) =
      sequence ((tokens.reverse.map Token.glob) ++ [second.glob, last.glob]) := by
  unfold Reading.globOf
  rw [List.reverse_cons, List.reverse_cons, List.append_assoc, List.map_append]
  rfl

/-- If a pattern accepts a path, then the pattern for what is inside accepts the paths below it. -/
theorem Pattern.accepts_inside {text : List Char} {outer inner : Pattern} (ne_nil : text ≠ [])
    (noStars : ¬ ['*', '*'] <:+ text) (noSlash : text.getLast? ≠ some '/')
    (parsed : Pattern.parse .strict text = .ok outer)
    (parsed' : Pattern.parse .strict (text ++ ['/', '*', '*', '/', '*']) = .ok inner)
    {path before name : List UInt8} (accepted : outer.glob.accepts path)
    (isName : 0x2F ∉ name) (separated : before = [] ∨ before.getLast? = some 0x2F) :
    inner.glob.accepts (path ++ (0x2F :: before ++ name)) := by
  unfold parse at parsed parsed'
  cases hread : Reading.read .strict none {} text with
  | error e =>
    rw [hread] at parsed
    cases parsed
  | ok after =>
    have hhead := Reading.head?_tokens_of_read ne_nil noStars noSlash hread
    rw [Reading.read_inside noStars hread] at parsed'
    rw [hread] at parsed
    dsimp only [bind, Except.bind] at parsed parsed'
    by_cases closed : after.groups.isEmpty
    · rw [if_pos closed] at parsed parsed'
      cases parsed
      cases parsed'
      rw [accepts_iff] at accepted ⊢
      -- Neither pattern is nothing but directories, which would accept everything.
      have hne : after.tokens ≠ [.anywhere] := fun same => hhead (same ▸ rfl)
      have hne' : (Token.star :: .between :: after.tokens) ≠ [.anywhere] := by simp
      rw [ofTokens, if_neg hne] at accepted
      rw [ofTokens, if_neg hne', globOf_cons_cons]
      exact Matches.sequence_append accepted (matches_between_star isName separated)
    · rw [if_neg closed] at parsed
      cases parsed

end CodeCensus.Glob
