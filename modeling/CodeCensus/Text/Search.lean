/-!
# Searching inside a text

The first place where one text occurs in another, and what follows a text that stands at the front.
-/

namespace CodeCensus.Text

/-- The position of the first occurrence of `needle`, if it occurs at all. -/
def firstAt? (needle : List Char) : List Char → Option Nat
  | [] => if needle.isEmpty then some 0 else none
  | c :: cs =>
    if needle.isPrefixOf (c :: cs) then some 0
    else (firstAt? needle cs).map (· + 1)

/-- Whether `needle` occurs in `text`. -/
def occursIn (needle text : List Char) : Bool :=
  (firstAt? needle text).isSome

/-- What follows `front` in a text that begins with it, character by character under `same`. -/
def after? (same : Char → Char → Bool) : (front text : List Char) → Option (List Char)
  | [], text => some text
  | _ :: _, [] => none
  | f :: front, c :: text => if same f c then after? same front text else none

end CodeCensus.Text
