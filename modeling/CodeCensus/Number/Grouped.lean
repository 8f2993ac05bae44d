/-!
# Numbers in groups of three digits

Counts are shown in decimal with a comma between groups of three digits, counted from the right.
-/

namespace CodeCensus.Number

/-- Put a comma after every third digit that has another one behind it. The digits come with the
last one first. -/
def commas : List Char → List Char
  | a :: b :: c :: d :: rest => a :: b :: c :: ',' :: commas (d :: rest)
  | short => short

/-- The decimal digits of a number in groups of three. -/
def groupedDigits (n : Nat) : List Char :=
  (commas (Nat.toDigits 10 n).reverse).reverse

/-- The text of a number in groups of three digits. -/
def grouped (n : Nat) : String :=
  String.ofList (groupedDigits n)

end CodeCensus.Number
