import CodeCensus.Json.Parser
import CodeCensus.Proofs.Digits
import CodeCensus.Proofs.Json.Grammar

/-!
# Reading documents

Every document is read, and what is found is the value that it describes (`parse?_of_isDocument`).  A
document therefore describes one value only, and no value is refused, however deep it is.

The two passes of the reader are followed rule by rule.  A token may end only where a character comes
that does not belong to it.  Of a text we therefore say that it is cut into tokens if these are the
tokens when nothing comes behind it (`Lexes`), and only of some texts that their last token is complete
by itself (`LexesTo`).  Where a text of the first sort is followed by another one, the second one begins
with a character that ends any token.
-/

namespace CodeCensus.Json

/-! ### Numerals -/

namespace Numeral

/-- An exponent is read as it is spelled. -/
theorem exponent?_of_spells {power : List Char} {exponent : Option (Bool × List Char)}
    (spells : SpellsExponent power exponent) : exponent? power = some exponent := by
  have hread : ∀ {digits : List Char}, IsDigits digits →
      (digits.isEmpty || !digits.all Char.isDigit) = false := by
    rintro digits ⟨some, all⟩
    simpa [some] using all
  cases spells with
  | none => rfl
  | @unsigned mark digits isMark digitsOk =>
    have hmark : (mark == 'e' || mark == 'E') = true := by simpa using isMark
    rw [exponent?, if_pos hmark]
    · simp [hread digitsOk]
    · -- A digit is no sign.
      rintro more rfl
      exact absurd (digitsOk.2 '-' List.mem_cons_self) (by decide)
    · rintro more rfl
      exact absurd (digitsOk.2 '+' List.mem_cons_self) (by decide)
  | @signed mark digits isMark negative digitsOk =>
    have hmark : (mark == 'e' || mark == 'E') = true := by simpa using isMark
    cases negative <;> simp [exponent?, hmark, hread digitsOk]

/-- An exponent begins with its letter, so it is told apart from the digits in front of it. -/
theorem head?_of_spellsExponent {power : List Char} {exponent : Option (Bool × List Char)}
    (spells : SpellsExponent power exponent) : ∀ c ∈ power.head?, c = 'e' ∨ c = 'E' := by
  cases spells with
  | none => simp
  | unsigned isMark _ => simpa using isMark
  | signed isMark _ _ => simpa using isMark

/-- What comes behind the whole digits of a numeral is read as it is spelled. -/
theorem tail?_of_spells {negative : Bool} {whole point fraction power : List Char}
    {exponent : Option (Bool × List Char)} (fractionOk : SpellsFraction point fraction)
    (exponentOk : SpellsExponent power exponent) :
    tail? negative whole (point ++ power) = some ⟨negative, whole, fraction, exponent⟩ := by
  have hmarks := head?_of_spellsExponent exponentOk
  cases fractionOk with
  | none =>
    rw [List.nil_append]
    unfold tail?
    split
    · simp at hmarks
    · rw [exponent?_of_spells exponentOk]
      rfl
  | some digitsOk =>
    have hstop : ∀ c ∈ power.head?, c.isDigit = false := by
      intro c mem
      rcases hmarks c mem with rfl | rfl <;> decide
    rw [List.cons_append, tail?, spanDigits_append digitsOk.2 hstop]
    simp [digitsOk.1, exponent?_of_spells exponentOk]

/-- A numeral is read as it is written. -/
theorem parse?_of_spells {text : List Char} {numeral : Numeral} (spells : SpellsNumeral text numeral) :
    parse? text = some numeral := by
  obtain ⟨negative, ⟨⟨someDigit, digits⟩, noZero⟩, fractionOk, exponentOk⟩ := spells
  next whole point fraction power exponent =>
  have hunsigned : unsigned? negative (whole ++ (point ++ power)) =
      some ⟨negative, whole, fraction, exponent⟩ := by
    have hstop : ∀ c ∈ (point ++ power).head?, c.isDigit = false := by
      intro c mem
      cases fractionOk with
      | none => rcases head?_of_spellsExponent exponentOk c mem with rfl | rfl <;> decide
      | some _ =>
        obtain rfl : '.' = c := by simpa using mem
        decide
    rw [unsigned?, spanDigits_append digits hstop]
    split
    · next _ heq => exact absurd (Prod.ext_iff.1 heq).1 someDigit
    · next _ heq =>
      have hwhole := (Prod.ext_iff.1 heq).1
      simp only at hwhole
      simp [hwhole] at noZero
    · next heq =>
      obtain ⟨rfl, rfl⟩ := Prod.ext_iff.1 heq
      exact tail?_of_spells fractionOk exponentOk
  cases negative with
  | true => simpa [parse?] using hunsigned
  | false =>
    rw [if_neg Bool.false_ne_true, List.nil_append, List.append_assoc]
    unfold parse?
    split
    · next heq =>
      obtain ⟨first, more, rfl⟩ := List.exists_cons_of_ne_nil someDigit
      obtain rfl : first = '-' := (List.cons.inj heq).1
      exact absurd (digits '-' List.mem_cons_self) (by decide)
    · exact hunsigned

theorem isNumeralChar_of_isDigits {digits : List Char} (digitsOk : IsDigits digits) :
    ∀ c ∈ digits, Lexer.isNumeralChar c := by
  intro c mem
  simp [Lexer.isNumeralChar, digitsOk.2 c mem]

/-- All characters of a numeral belong to numerals. -/
theorem isNumeralChar_of_spells {text : List Char} {numeral : Numeral}
    (spells : SpellsNumeral text numeral) : ∀ c ∈ text, Lexer.isNumeralChar c := by
  obtain ⟨negative, wholeOk, fractionOk, exponentOk⟩ := spells
  next whole point fraction power exponent =>
  have hsign : ∀ c ∈ (if negative then ['-'] else [] : List Char), Lexer.isNumeralChar c := by
    cases negative with
    | true => exact List.forall_mem_singleton.2 rfl
    | false => exact List.forall_mem_nil _
  have hpoint : ∀ c ∈ point, Lexer.isNumeralChar c := by
    cases fractionOk with
    | none => simp
    | some digitsOk =>
      exact List.forall_mem_cons.2 ⟨by decide, isNumeralChar_of_isDigits digitsOk⟩
  have hpower : ∀ c ∈ power, Lexer.isNumeralChar c := by
    have hmark : ∀ {mark : Char}, mark = 'e' ∨ mark = 'E' → Lexer.isNumeralChar mark := by
      rintro mark (rfl | rfl) <;> decide
    cases exponentOk with
    | none => simp
    | unsigned isMark digitsOk =>
      exact List.forall_mem_cons.2 ⟨hmark isMark, isNumeralChar_of_isDigits digitsOk⟩
    | signed isMark negative digitsOk =>
      refine List.forall_mem_cons.2 ⟨hmark isMark, List.forall_mem_cons.2 ⟨?_, ?_⟩⟩
      · cases negative <;> decide
      · exact isNumeralChar_of_isDigits digitsOk
  simp only [List.forall_mem_append]
  exact ⟨⟨⟨hsign, isNumeralChar_of_isDigits wholeOk.1⟩, hpoint⟩, hpower⟩

/-- A numeral begins with its sign or with a digit. -/
theorem exists_cons_of_spells {text : List Char} {numeral : Numeral}
    (spells : SpellsNumeral text numeral) :
    ∃ first rest, text = first :: rest ∧ (first = '-' ∨ first.isDigit) := by
  obtain ⟨negative, ⟨⟨someDigit, digits⟩, _⟩, _, _⟩ := spells
  next whole point fraction power exponent =>
  obtain ⟨first, more, rfl⟩ := List.exists_cons_of_ne_nil someDigit
  cases negative with
  | true => exact ⟨'-', _, rfl, .inl rfl⟩
  | false => exact ⟨first, _, rfl, .inr (digits first List.mem_cons_self)⟩

end Numeral

/-! ### Cutting texts into tokens -/

namespace Lexer

/-- These are the tokens of a text if it ends here. -/
def Settles (lexer : Lexer) (tokens : List Token) : Prop :=
  close? lexer.tokens lexer.mode = some tokens

/-- A character that ends any token. -/
def delimits (c : Char) : Bool :=
  !c.isLower && !isNumeralChar c

/-- After a character that ends any token, it makes no difference which one was being read. -/
theorem next?_of_settles {lexer : Lexer} {tokens : List Token} {c : Char}
    (settles : lexer.Settles tokens) (ends : delimits c) :
    lexer.next? c = next? ⟨tokens, .between⟩ c := by
  obtain ⟨notLower, notNumeral⟩ : c.isLower = false ∧ isNumeralChar c = false := by
    simpa [delimits] using ends
  obtain ⟨read, mode⟩ := lexer
  cases mode with
  | between =>
    obtain rfl : read = tokens := Option.some.inj settles
    rfl
  | word letters =>
    have hclose : close? read (.word letters) = some tokens := settles
    simp [next?, notLower, hclose]
  | numeral chars =>
    have hclose : close? read (.numeral chars) = some tokens := settles
    simp [next?, notNumeral, hclose]
  | string pieces => cases settles
  | escape pieces => cases settles
  | hex pieces left value => cases settles

/-- With its first character, a numeral is being read. -/
theorem next?_numeral {c : Char} (begins : c = '-' ∨ c.isDigit) (before : List Token) :
    next? ⟨before, .between⟩ c = some ⟨before, .numeral [c]⟩ := by
  rcases begins with rfl | isDigit
  · rfl
  · have hne : ∀ d : Char, d.isDigit = false → c ≠ d := fun d => ne_of_isDigit isDigit
    have hblank : isBlank c = false := by
      simp [isBlank, hne ' ' rfl, hne '\n' rfl, hne '\r' rfl, hne '\t' rfl]
    simp [next?, start?, hblank, hne '"' rfl, isDigit]

/-- A numeral goes on as long as there are characters of numerals. -/
theorem foldlM_numeral {rest : List Char} (chars : ∀ c ∈ rest, isNumeralChar c) (before : List Token)
    (read : List Char) : rest.foldlM next? ⟨before, .numeral read⟩ =
      some ⟨before, .numeral (rest.reverse ++ read)⟩ := by
  induction rest generalizing read with
  | nil => rfl
  | cons c rest ih =>
    obtain ⟨isChar, restChars⟩ := List.forall_mem_cons.1 chars
    have hnext : next? ⟨before, .numeral read⟩ c = some ⟨before, .numeral (c :: read)⟩ := by
      simp [next?, isChar]
    rw [List.foldlM_cons, hnext, List.reverse_cons, List.append_assoc]
    exact ih restChars _

theorem delimits_of_isBlank {c : Char} (isBlank : isBlank c) : delimits c := by
  simp only [Lexer.isBlank, Bool.or_eq_true, beq_iff_eq] at isBlank
  rcases isBlank with ((rfl | rfl) | rfl) | rfl <;> decide

end Lexer

open Lexer (Settles delimits)

/-- These are the tokens of a text, unless the last of them goes on behind it. -/
def Lexes (text : List Char) (tokens : List Token) : Prop :=
  ∀ before, ∃ lexer : Lexer, text.foldlM Lexer.next? ⟨before, .between⟩ = some lexer ∧
    lexer.Settles (tokens.reverse ++ before)

/-- These are the tokens of a text, and the last of them does not go on behind it. -/
def LexesTo (text : List Char) (tokens : List Token) : Prop :=
  ∀ before, text.foldlM Lexer.next? ⟨before, .between⟩ = some ⟨tokens.reverse ++ before, .between⟩

section

variable {first second : List Char} {tokens more : List Token}

/-- Tokens that do not go on are tokens, whatever comes behind them. -/
theorem LexesTo.lexes (lexes : LexesTo first tokens) : Lexes first tokens :=
  fun before => ⟨_, lexes before, rfl⟩

/-- Other tokens may follow them at once, without a delimiter. -/
theorem LexesTo.append (lexes : LexesTo first tokens) (lexesMore : Lexes second more) :
    Lexes (first ++ second) (tokens ++ more) := by
  intro before
  obtain ⟨lexer, hrun, settles⟩ := lexesMore (tokens.reverse ++ before)
  refine ⟨lexer, ?_, ?_⟩
  · rw [List.foldlM_append, lexes before]
    exact hrun
  · rwa [List.reverse_append, List.append_assoc]

/-- What comes behind a text begins with a character that ends any token. -/
theorem Lexes.append (lexes : Lexes first tokens) (ends : ∀ c ∈ second.head?, delimits c)
    (lexesMore : Lexes second more) : Lexes (first ++ second) (tokens ++ more) := by
  intro before
  obtain ⟨lexer, hrun, settles⟩ := lexes before
  obtain ⟨last, hlast, settlesLast⟩ := lexesMore (tokens.reverse ++ before)
  rw [List.reverse_append, List.append_assoc]
  cases second with
  | nil =>
    obtain rfl : last = ⟨tokens.reverse ++ before, .between⟩ := (Option.some.inj hlast).symm
    have hmore : more.reverse ++ (tokens.reverse ++ before) = tokens.reverse ++ before :=
      (Option.some.inj settlesLast).symm
    rw [hmore, List.append_nil]
    exact ⟨lexer, hrun, settles⟩
  | cons c second =>
    refine ⟨last, ?_, settlesLast⟩
    rw [List.foldlM_append, hrun, ← hlast]
    change (lexer.next? c).bind _ = _
    rw [Lexer.next?_of_settles settles (ends c rfl)]
    rfl

/-! ### The tokens of the parts of a document -/

/-- Blanks are no tokens. -/
theorem lexesTo_of_isBlanks (isBlanks : IsBlanks first) : LexesTo first [] := by
  intro before
  induction first with
  | nil => rfl
  | cons c rest ih =>
    obtain ⟨isBlank, restBlanks⟩ := List.forall_mem_cons.1 isBlanks
    have hnext : Lexer.next? ⟨before, .between⟩ c = some ⟨before, .between⟩ := by
      simp [Lexer.next?, Lexer.start?, isBlank]
    rw [List.foldlM_cons, hnext]
    exact ih restBlanks

/-- Blanks delimit, if there are any. -/
theorem delimits_of_isBlanks (isBlanks : IsBlanks first) : ∀ c ∈ first.head?, delimits c :=
  fun c mem => Lexer.delimits_of_isBlank (isBlanks c (List.mem_of_mem_head? mem))

/-- A numeral is cut as one token, if a delimiter ends it. -/
theorem lexes_of_spellsNumeral {numeral : Numeral} (spells : SpellsNumeral first numeral) :
    Lexes first [.number numeral] := by
  intro before
  have hparse := Numeral.parse?_of_spells spells
  have hchars := Numeral.isNumeralChar_of_spells spells
  obtain ⟨c, rest, rfl, begins⟩ := Numeral.exists_cons_of_spells spells
  refine ⟨⟨before, .numeral (rest.reverse ++ [c])⟩, ?_, ?_⟩
  · rw [List.foldlM_cons, Lexer.next?_numeral begins]
    exact Lexer.foldlM_numeral (List.forall_mem_cons.1 hchars).2 before [c]
  · simp [Settles, Lexer.close?, hparse]

/-- A piece of a string is taken off the string that is being read. -/
theorem foldlM_of_spellsPiece {piece : Piece} (spells : SpellsPiece first piece) (before : List Token)
    (pieces : List Piece) : first.foldlM Lexer.next? ⟨before, .string pieces⟩ =
      some ⟨before, .string (piece :: pieces)⟩ := by
  cases spells with
  | plain noQuote noBackslash noControl =>
    have hcontrol := not_lt.2 noControl
    simp [Lexer.next?, noQuote, noBackslash, hcontrol]
  | @letter letter c escapes =>
    have hunit : letter ≠ 'u' := by
      rintro rfl
      cases escapes
    simp [Lexer.next?, hunit, escapes]
  | unit hexFirst hexSecond hexThird hexFourth =>
    simp [Lexer.next?, hexFirst, hexSecond, hexThird, hexFourth]

/-- The pieces of a string are read one by one, and kept in reverse. -/
theorem foldlM_of_spellsPieces {pieces : List Piece} (spells : SpellsPieces first pieces)
    (before : List Token) (read : List Piece) : first.foldlM Lexer.next? ⟨before, .string read⟩ =
      some ⟨before, .string (pieces.reverse ++ read)⟩ := by
  induction spells generalizing read with
  | nil => rfl
  | cons firstOk _ ih =>
    rw [List.foldlM_append, foldlM_of_spellsPiece firstOk, List.reverse_cons, List.append_assoc]
    exact ih _

/-- A string is cut as one token, whatever comes behind its closing quote. -/
theorem lexesTo_of_spellsString {content : Option String} (spells : SpellsString first content) :
    LexesTo first [.string content] := by
  obtain ⟨insideOk⟩ := spells
  next inside pieces =>
  intro before
  have hquote : Lexer.next? ⟨before, .between⟩ '"' = some ⟨before, .string []⟩ := rfl
  rw [List.cons_append, List.foldlM_cons, hquote]
  change (inside ++ ['"']).foldlM Lexer.next? ⟨before, .string []⟩ = _
  rw [List.foldlM_append, foldlM_of_spellsPieces insideOk]
  simp [Lexer.next?]

/-- A character that is a token by itself ends any other token. -/
theorem lexesTo_punctuation {c : Char} {token : Token} (isToken : Lexer.punctuation? c = some token) :
    delimits c ∧ LexesTo [c] [token] := by
  unfold Lexer.punctuation? at isToken
  split at isToken <;> cases isToken <;> exact ⟨rfl, fun before => rfl⟩

/-- Brackets around a text. -/
theorem Lexes.enclosed {opening closing : Char} {start stop : Token}
    (opens : Lexer.punctuation? opening = some start) (closes : Lexer.punctuation? closing = some stop)
    (lexes : Lexes first tokens) :
    Lexes (opening :: first ++ [closing]) (start :: tokens ++ [stop]) := by
  obtain ⟨-, lexesStart⟩ := lexesTo_punctuation opens
  obtain ⟨delimited, lexesStop⟩ := lexesTo_punctuation closes
  refine lexesStart.append (lexes.append ?_ lexesStop.lexes)
  simpa using delimited

/-- A character that is a token by itself between two texts. -/
theorem Lexes.separated {c : Char} {token : Token} (isToken : Lexer.punctuation? c = some token)
    (lexes : Lexes first tokens) (lexesMore : Lexes second more) :
    Lexes (first ++ c :: second) (tokens ++ token :: more) := by
  obtain ⟨delimited, lexesToken⟩ := lexesTo_punctuation isToken
  refine lexes.append ?_ (lexesToken.append lexesMore)
  simpa using delimited

/-- Blanks around a text. -/
theorem Lexes.padded {before after : List Char} (blanksBefore : IsBlanks before)
    (blanksAfter : IsBlanks after) (lexes : Lexes first tokens) :
    Lexes (before ++ first ++ after) tokens := by
  have hafter := lexes.append (delimits_of_isBlanks blanksAfter) (lexesTo_of_isBlanks blanksAfter).lexes
  rw [List.append_assoc]
  simpa using (lexesTo_of_isBlanks blanksBefore).append hafter

end

/-! ### Putting tokens together -/

/-- These are the tokens of a part of a document. -/
def Parses : Part → List Token → Prop
  | .value v, tokens | .element v, tokens =>
    ∀ stack, tokens.foldlM Expect.next? (.value stack) = some (.complete v stack)
  | .elements values, tokens =>
    ∀ before stack, tokens.foldlM Expect.next? (.value (.element before :: stack)) =
      some (.afterElement (values.reverse ++ before) stack)
  | .member key v, tokens =>
    ∀ before stack, tokens.foldlM Expect.next? (.nextKey before stack) =
      some (.afterMember ((key, v) :: before) stack)
  | .members members, tokens =>
    ∀ before stack, tokens.foldlM Expect.next? (.nextKey before stack) =
      some (.afterMember (members.reverse ++ before) stack)

/-- In an array that is not empty, the first element is read like the others. -/
theorem foldlM_firstElement {values : List Value} {tokens : List Token} {stack : List Frame}
    (parses : Parses (.elements values) tokens) :
    tokens.foldlM Expect.next? (.firstElement stack) = some (.afterElement values.reverse stack) := by
  have hvalue := parses [] stack
  rw [List.append_nil] at hvalue
  cases tokens with
  | nil => cases hvalue
  | cons token tokens =>
    rw [← hvalue, List.foldlM_cons, List.foldlM_cons]
    cases token with
    | closeSquare => cases hvalue
    | _ => rfl

/-- In an object that is not empty, the first key is read like the others. -/
theorem foldlM_firstKey {members : List (Option String × Value)} {tokens : List Token}
    {stack : List Frame} (parses : Parses (.members members) tokens) :
    tokens.foldlM Expect.next? (.firstKey stack) = some (.afterMember members.reverse stack) := by
  have hkey := parses [] stack
  rw [List.append_nil] at hkey
  cases tokens with
  | nil => cases hkey
  | cons token tokens =>
    rw [← hkey, List.foldlM_cons, List.foldlM_cons]
    cases token with
    | closeCurly => cases hkey
    | _ => rfl

/-- Every part of a document is read. -/
theorem exists_tokens_of_spells {part : Part} {text : List Char} (spells : Spells part text) :
    ∃ tokens, Lexes text tokens ∧ Parses part tokens := by
  -- The induction follows the grammar: the tokens of a part are put together from those of its parts.
  induction spells with
  | null => exact ⟨[.null], fun before => ⟨_, rfl, rfl⟩, fun stack => rfl⟩
  | true => exact ⟨[.bool true], fun before => ⟨_, rfl, rfl⟩, fun stack => rfl⟩
  | false => exact ⟨[.bool false], fun before => ⟨_, rfl, rfl⟩, fun stack => rfl⟩
  | number spells => exact ⟨_, lexes_of_spellsNumeral spells, fun stack => rfl⟩
  | string spells => exact ⟨_, (lexesTo_of_spellsString spells).lexes, fun stack => rfl⟩
  | emptyArray isBlanks =>
    exact ⟨_, (lexesTo_of_isBlanks isBlanks).lexes.enclosed rfl rfl, fun stack => rfl⟩
  | array elements ih =>
    obtain ⟨tokens, lexes, parses⟩ := ih
    refine ⟨_, lexes.enclosed rfl rfl, fun stack => ?_⟩
    change (tokens ++ [Token.closeSquare]).foldlM Expect.next? (.firstElement stack) = _
    rw [List.foldlM_append, foldlM_firstElement parses]
    simp [Expect.next?]
  | emptyObject isBlanks =>
    exact ⟨_, (lexesTo_of_isBlanks isBlanks).lexes.enclosed rfl rfl, fun stack => rfl⟩
  | object membersOk ih =>
    obtain ⟨tokens, lexes, parses⟩ := ih
    refine ⟨_, lexes.enclosed rfl rfl, fun stack => ?_⟩
    change (tokens ++ [Token.closeCurly]).foldlM Expect.next? (.firstKey stack) = _
    rw [List.foldlM_append, foldlM_firstKey parses]
    simp [Expect.next?]
  | element blanksBefore blanksAfter spells ih =>
    obtain ⟨tokens, lexes, parses⟩ := ih
    exact ⟨tokens, lexes.padded blanksBefore blanksAfter, parses⟩
  | lastElement spells ih =>
    obtain ⟨tokens, lexes, parses⟩ := ih
    exact ⟨tokens, lexes, fun before stack => parses _⟩
  | furtherElement spells restOk ih ihRest =>
    obtain ⟨tokens, lexes, parses⟩ := ih
    obtain ⟨more, lexesMore, parsesMore⟩ := ihRest
    refine ⟨_, lexes.separated rfl lexesMore, fun before stack => ?_⟩
    rw [List.foldlM_append, parses, List.reverse_cons, List.append_assoc]
    exact parsesMore _ stack
  | member blanksBefore blanksAfter keyOk spells ih =>
    obtain ⟨tokens, lexes, parses⟩ := ih
    have hkey := (lexesTo_of_spellsString keyOk).lexes.padded blanksBefore blanksAfter
    exact ⟨_, hkey.separated rfl lexes, fun before stack => parses _⟩
  | lastMember spells ih => exact ih
  | furtherMember spells restOk ih ihRest =>
    obtain ⟨tokens, lexes, parses⟩ := ih
    obtain ⟨more, lexesMore, parsesMore⟩ := ihRest
    refine ⟨_, lexes.separated rfl lexesMore, fun before stack => ?_⟩
    rw [List.foldlM_append, parses, List.reverse_cons, List.append_assoc]
    exact parsesMore _ stack

/-- The text of a value is a document, without blanks around it. -/
theorem isDocument_of_spells {text : List Char} {value : Value} (spells : Spells (.value value) text) :
    IsDocument text value := by
  have hdocument := Spells.element (List.forall_mem_nil _) (List.forall_mem_nil _) spells
  rwa [List.nil_append, List.append_nil] at hdocument

/-- **Every document is read.**  What is found is the value that it describes. -/
theorem parse?_of_isDocument {text : List Char} {value : Value} (document : IsDocument text value) :
    parse? text = some value := by
  obtain ⟨tokens, lexes, parses⟩ := exists_tokens_of_spells document
  obtain ⟨lexer, hrun, settles⟩ := lexes []
  have htokens : tokens? text = some tokens := by
    have hclose : Lexer.close? lexer.tokens lexer.mode = some tokens.reverse := by
      rw [← List.append_nil tokens.reverse]
      exact settles
    rw [tokens?, hrun, Option.bind_some, hclose, Option.map_some, List.reverse_reverse]
  rw [parse?, htokens, Option.bind_some, ofTokens?, parses []]
  rfl

/-- A document describes one value only. -/
theorem IsDocument.unique {text : List Char} {value other : Value} (document : IsDocument text value)
    (same : IsDocument text other) : value = other := by
  rw [← Option.some_inj, ← parse?_of_isDocument document, parse?_of_isDocument same]

end CodeCensus.Json
