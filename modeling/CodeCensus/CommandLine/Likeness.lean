/-!
# Likeness of words

How much two words are alike, after Jaro. Letters of the two words match if they are the same and stand
not too far apart, and each letter matches at most once. The likeness is the mean of three shares: the
share of matched letters in the one word, their share in the other, and the share of the matched letters
that stand in the same order in both.
-/

namespace CodeCensus.CommandLine

/-- How far apart two letters may stand to match. -/
def reach (a b : Nat) : Nat :=
  max a b / 2 - 1

/-- Match a letter at a position with the first free letter of the other word that is near enough. Letters
that have been matched are marked. -/
def matchLetter (reach : Nat) (c : Char) (position index : Nat) :
    List (Char × Bool) → Option (List (Char × Bool))
  | [] => none
  | (d, used) :: rest =>
    if position ≤ index + reach ∧ index ≤ position + reach ∧ c = d ∧ !used then
      some ((d, true) :: rest)
    else (matchLetter reach c position (index + 1) rest).map ((d, used) :: ·)

/-- The letters of a word that match, and the other word with its matched letters marked. -/
def matchLetters (reach : Nat) (position : Nat) (other : List (Char × Bool)) :
    List Char → List Char × List (Char × Bool)
  | [] => ([], other)
  | c :: rest =>
    match matchLetter reach c position 0 other with
    | some other =>
      let (matched, other) := matchLetters reach (position + 1) other rest
      (c :: matched, other)
    | none => matchLetters reach (position + 1) other rest

/-- A share as a floating-point number. -/
def share (part whole : Nat) : Float :=
  part.toFloat / whole.toFloat

/-- Whether two words are alike by more than seven tenths, in floating-point arithmetic: where the mean is
seven tenths exactly, rounding decides. -/
def alike (a b : List Char) : Bool :=
  let (matched, marked) := matchLetters (reach a.length b.length) 0 (b.map (·, false)) a
  let others := (marked.filter (·.2)).map (·.1)
  let moved := ((matched.zip others).countP fun (c, d) => c != d) / 2
  let m := matched.length
  m ≠ 0 && 0.7 < (share m a.length + share m b.length + share (m - moved) m) / 3.0

end CodeCensus.CommandLine
