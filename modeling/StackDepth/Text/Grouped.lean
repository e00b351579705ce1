import StackDepth.Text.Pad

/-!
# Grouped digits

A large number is written with a comma before every group of three digits.
-/

namespace StackDepth

namespace Text

/-- Puts a comma behind every third digit of a list that starts with the last digit. -/
def groupReversed : List Char → List Char
  | a :: b :: c :: d :: rest => a :: b :: c :: ',' :: groupReversed (d :: rest)
  | digits => digits

/-- A decimal number with commas. -/
def grouped (n : Int) : String :=
  let digits := String.ofList (groupReversed (Nat.toDigits 10 n.natAbs).reverse).reverse
  if n < 0 then "-" ++ digits else digits

end Text

end StackDepth
