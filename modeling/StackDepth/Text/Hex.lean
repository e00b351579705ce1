/-!
# Numbers in base sixteen

Addresses and bytes are written with upper-case digits, padded with zeros to a least width.
-/

namespace StackDepth

namespace Text

/-- The digits of a number in base sixteen, at least one. -/
def hexDigits (n : Nat) : List Char := (Nat.toDigits 16 n).map Char.toUpper

/-- Upper-case digits padded with zeros to `width`. -/
def hex (width n : Nat) : String :=
  let digits := hexDigits n
  String.ofList (List.replicate (width - digits.length) '0' ++ digits)

/-- Four digits or more. -/
def hex4 (n : Nat) : String := hex 4 n

/-- Two digits or more. -/
def hex2 (n : Nat) : String := hex 2 n

/-- Four places or more for a number that may be negative; the sign takes one of them. -/
def signedHex4 (n : Int) : String :=
  if n < 0 then "-" ++ hex 3 n.natAbs else hex4 n.natAbs

/-- Lower-case digits padded with zeros to `width`. -/
def lowerHex (width n : Nat) : String :=
  let digits := Nat.toDigits 16 n
  String.ofList (List.replicate (width - digits.length) '0' ++ digits)

end Text

end StackDepth
