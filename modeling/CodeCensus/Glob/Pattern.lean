import CodeCensus.Glob.Basic

/-!
# Patterns

The notation of globs. A question mark stands for one byte of a name and a star for any number of them.
Two stars that take up the place of a name stand for any number of directories. Brackets hold a class of
characters, braces hold patterns of which one has to fit, and a backslash takes the next character as
it is.

A pattern is read in any depth, but only patterns of a certain depth are good for matching. The depth
counts the expressions that stand inside each other when the pattern is written as a regular expression.
-/

namespace CodeCensus.Glob

/-- Why a text is not a pattern. -/
inductive Error where
  | openClass
  | reversedRange (low high : Char)
  | openGroup
  | unopenedGroup
  | nothingEscaped
  deriving DecidableEq, Repr

/-! ### Tokens -/

/-- A part of a pattern. -/
inductive Token where
  | literal (c : Char)
  /-- One byte of a name. -/
  | anyByte
  /-- Any number of bytes of a name. -/
  | star
  /-- Any directories at the front: two stars and a slash. -/
  | anywhere
  /-- Everything below: a slash and two stars at the end. -/
  | below
  /-- Any directories in between: two stars between slashes. -/
  | between
  /-- One byte of a class. -/
  | oneOf (set : ByteSet)
  /-- What stands in braces, and its depth. -/
  | group (inside : Glob) (depth : Nat)
  deriving DecidableEq, Repr

/-- What a token accepts. -/
def Token.glob : Token → Glob
  | literal c => character c
  | anyByte => .one insideName
  | star => .run insideName
  | anywhere => .either (.either separator .empty) (.both (.run .all) separator)
  | below => .both separator (.run .all)
  | between => .either separator (.both separator (.both (.run .all) separator))
  | oneOf set => .one set
  | group inside _ => inside

/-! ### Depth -/

/-- The depth of a token. A run of bytes is a repetition of a class, a choice stands in a group, and a
class of several ranges has them in a union. -/
def Token.depth : Token → Nat
  | literal _ => 0
  | anyByte => 1
  | star => 2
  | anywhere => 4
  | below => 1
  | between => 4
  | oneOf set => if set.ranges.length ≤ 1 then 1 else 2
  | group _ depth => depth

/-- The number of expressions in a row that a token is. -/
def Token.width : Token → Nat
  | literal c => (String.utf8EncodeChar c).length
  | below => 2
  | group inside _ => if inside = .empty then 0 else 1
  | _ => 1

/-- The depth of the deepest one of some tokens. -/
def deepest (tokens : List Token) : Nat :=
  (tokens.map Token.depth).foldl max 0

/-- The depth of a sequence of tokens: one more than that of its deepest token, if it is a row of
several expressions. -/
def depthOf (tokens : List Token) : Nat :=
  deepest tokens + if (tokens.map Token.width).foldr (· + ·) 0 ≤ 1 then 0 else 1

/-- The depth of a group with patterns of the given depths. -/
def depthOfGroup : List Nat → Nat
  | [] => 0
  | [depth] => depth + 1
  | depths => depths.foldl max 0 + 2

/-! ### Classes -/

/-- The ranges of a class, from the range that is being read on. A dash between two characters makes
a range, or gives the last range another end; a dash at the end stands for itself. -/
def rangesFrom (low high : Char) : List Char → Except Error (List (Char × Char))
  | [] => pure [(low, high)]
  | ['-'] => pure [(low, high), ('-', '-')]
  | '-' :: c :: rest =>
    if c < low then throw (.reversedRange low c) else rangesFrom low c rest
  | c :: rest => do pure ((low, high) :: (← rangesFrom c c rest))

/-- The bytes of a range of characters. Beyond ASCII, where a character has several bytes, each of them
counts for itself, and the range goes from the last byte of its first character to the first byte of
its last one. -/
def bytesOfRange (range : Char × Char) : List (UInt8 × UInt8) :=
  let low := String.utf8EncodeChar range.1
  let high := String.utf8EncodeChar range.2
  if range.1 = range.2 then low.map fun byte => (byte, byte)
  else
    (low.dropLast.map fun byte => (byte, byte)) ++
      (low.getLast?.toList.zip high.head?.toList) ++
      (high.tail.map fun byte => (byte, byte))

/-- Whether a class begins by turning itself around, and what follows. -/
def negation : List Char → Bool × List Char
  | '!' :: rest => (true, rest)
  | '^' :: rest => (true, rest)
  | rest => (false, rest)

/-- The class whose opening bracket has just been read, with what follows its closing bracket. The
first character of a class stands for itself, even if it is a bracket or a dash. There is no class if
there is no closing bracket. -/
def classOf? (input : List Char) : Except Error (Option (ByteSet × List Char)) :=
  match negation input with
  | (_, []) => pure none
  | (negated, first :: rest) => do
    let ranges ← rangesFrom first first (rest.takeWhile (· != ']'))
    match rest.dropWhile (· != ']') with
    | [] => pure none
    | _ :: after => pure (some (⟨ranges.flatMap bytesOfRange, negated⟩, after))

/-- Looking for a mark of negation does not make the input longer. -/
theorem negation_length (input : List Char) : (negation input).2.length ≤ input.length := by
  unfold negation
  split <;> simp

/-- Reading a class takes at least its bracket, so the input gets shorter. -/
theorem classOf?_length {input after : List Char} {set : ByteSet}
    (h : classOf? input = .ok (some (set, after))) : after.length < input.length := by
  have sign := negation_length input
  unfold classOf? at h
  split at h
  · simp [pure, Except.pure] at h
  · rename_i negated first rest eq
    rw [eq] at sign
    cases hr : rangesFrom first first (rest.takeWhile (· != ']')) with
    | error e => simp [hr, bind, Except.bind] at h
    | ok ranges =>
      simp only [hr, bind, Except.bind] at h
      have drop := (List.dropWhile_suffix (l := rest) (· != ']')).length_le
      split at h
      · simp [pure, Except.pure] at h
      · rename_i c more eq'
        simp only [pure, Except.pure, Except.ok.injEq, Option.some.injEq, Prod.mk.injEq] at h
        rw [eq'] at drop
        obtain ⟨-, rfl⟩ := h
        simp at drop sign
        omega

/-! ### Reading a pattern -/

/-- What an opening bracket means if there is no closing one. -/
inductive Brackets where
  /-- That the pattern is wrong. -/
  | strict
  /-- Itself, and then so does every opening bracket behind it. -/
  | lenient
  /-- Itself, and there was one in front of it already. -/
  | plain
  deriving DecidableEq, Repr

/-- A pair of braces that is open: what stood in front of it, last token first, and the patterns in
it that are complete, last pattern first. -/
structure OpenGroup where
  before : List Token
  complete : List (List Token)

/-- What has been read of a pattern: the tokens since the last brace or comma that counts, last token
first, and the braces that are open, innermost first. -/
structure Reading where
  tokens : List Token := []
  groups : List OpenGroup := []

namespace Reading

/-- Add a token. -/
def push (reading : Reading) (token : Token) : Reading :=
  { reading with tokens := token :: reading.tokens }

/-- What some tokens accept, last token first. -/
def globOf (tokens : List Token) : Glob :=
  sequence (tokens.reverse.map Token.glob)

/-- Open a pair of braces. -/
def openGroup (reading : Reading) : Reading :=
  ⟨[], ⟨reading.tokens, []⟩ :: reading.groups⟩

/-- Close a pair of braces. Patterns that are empty count for nothing. -/
def closeGroup (reading : Reading) : Except Error Reading :=
  match reading.groups with
  | [] => throw .unopenedGroup
  | group :: groups =>
    let inside := (reading.tokens :: group.complete).reverse.filter fun tokens => globOf tokens ≠ .empty
    let token := Token.group (anyOf (inside.map globOf)) (depthOfGroup (inside.map depthOf))
    pure ⟨token :: group.before, groups⟩

/-- Read a comma, which parts the patterns in braces. -/
def comma (reading : Reading) : Reading :=
  match reading.groups with
  | [] => reading.push (.literal ',')
  | group :: groups =>
    ⟨[], { group with complete := reading.tokens :: group.complete } :: groups⟩

/-- Put a token for directories in place of the slash in front of two stars. Directories that stand
there already make further ones superfluous. -/
def turn (reading : Reading) (token : Token) : Reading :=
  match reading.tokens with
  | .anywhere :: _ => reading
  | .below :: _ => reading
  | tokens => { reading with tokens := token :: tokens.tail }

/-- Read two stars after which there is `rest`. Also says whether the slash that follows belongs to
them. Two stars that do not take up the place of a name are two stars and nothing more. -/
def stars (reading : Reading) (previous : Option Char) (rest : List Char) : Reading × Bool :=
  let plain := ((reading.push .star).push .star, false)
  let inGroup := !reading.groups.isEmpty
  if reading.tokens.isEmpty then
    if rest.isEmpty then (reading.push .anywhere, false)
    else if rest.head? = some '/' then (reading.push .anywhere, true)
    else plain
  else if previous = some '/' ∨ inGroup ∧ (previous = some ',' ∨ previous = some '\x7b') then
    if rest.isEmpty then (reading.turn .below, false)
    else if rest.head? = some '/' then (reading.turn .between, true)
    else if inGroup ∧ (rest.head? = some ',' ∨ rest.head? = some '\x7d') then
      (reading.turn .below, false)
    else plain
  else plain

/-- Read the rest of a pattern. -/
def read (brackets : Brackets) (previous : Option Char) (reading : Reading) (input : List Char) :
    Except Error Reading :=
  match input with
  | [] => pure reading
  | '?' :: rest => read brackets (some '?') (reading.push .anyByte) rest
  | '*' :: '*' :: rest =>
    match reading.stars previous rest with
    | (reading, false) => read brackets (some '*') reading rest
    | (reading, true) => read brackets (some '/') reading rest.tail
  | '*' :: rest => read brackets (some '*') (reading.push .star) rest
  | '[' :: rest =>
    if brackets = .plain then read .plain (some '[') (reading.push (.literal '[')) rest
    else
      match h : classOf? rest with
      | .error e => throw e
      | .ok (some (set, after)) =>
        have := classOf?_length h
        read brackets (some ']') (reading.push (.oneOf set)) after
      | .ok none =>
        if brackets = .strict then throw .openClass
        else read .plain (some '[') (reading.push (.literal '[')) rest
  | '\x7b' :: rest => read brackets (some '\x7b') reading.openGroup rest
  | '\x7d' :: rest => do read brackets (some '\x7d') (← reading.closeGroup) rest
  | ',' :: rest => read brackets (some ',') reading.comma rest
  | '\\' :: c :: rest => read brackets (some c) (reading.push (.literal c)) rest
  | ['\\'] => throw .nothingEscaped
  | c :: rest => read brackets (some c) (reading.push (.literal c)) rest
termination_by input.length
decreasing_by
  all_goals simp only [List.length_cons, List.length_tail]
  all_goals omega

end Reading

/-- The greatest depth of a pattern that is good for matching. -/
def maxDepth : Nat := 250

/-- A pattern that has been read. -/
structure Pattern where
  glob : Glob
  depth : Nat
  deriving DecidableEq, Repr

namespace Pattern

/-- Whether a pattern is too deep for matching. -/
def tooDeep (pattern : Pattern) : Bool :=
  maxDepth < pattern.depth

/-- The pattern of some tokens, last one first. A pattern that is nothing but directories at the front
accepts everything. In every pattern the tokens stand in a row with the marks for both ends. -/
def ofTokens (tokens : List Token) : Pattern :=
  ⟨if tokens = [.anywhere] then .run .all else Reading.globOf tokens, deepest tokens + 1⟩

/-- Read a pattern. -/
def parse (brackets : Brackets) (text : List Char) : Except Error Pattern := do
  let reading ← Reading.read brackets none {} text
  if reading.groups.isEmpty then pure (ofTokens reading.tokens) else throw .openGroup

end Pattern

end CodeCensus.Glob
