/-!
# Columns

A column is filled up with blanks to its width; a text that is longer stays as it is. The width
counts characters.
-/

namespace StackDepth

namespace Text

/-- The text at the left end of a column. -/
def padRight (width : Nat) (s : String) : String :=
  s ++ String.ofList (List.replicate (width - s.length) ' ')

/-- The text at the right end of a column. -/
def padLeft (width : Nat) (s : String) : String :=
  String.ofList (List.replicate (width - s.length) ' ') ++ s

/-- A decimal number. -/
def decimal (n : Int) : String :=
  match n with
  | .ofNat m => String.ofList (Nat.toDigits 10 m)
  | .negSucc m => "-" ++ String.ofList (Nat.toDigits 10 (m + 1))

/-- A decimal number that always shows its sign; zero counts as positive. -/
def signed (n : Int) : String := if n < 0 then decimal n else "+" ++ decimal n

end Text

end StackDepth
