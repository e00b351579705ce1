import StackDepth.Text.Pad

/-!
# Binary fractions of 53 bits

Means and sizes are computed with binary fractions whose mantissa has 53 bits: every result is the nearest
such fraction to the exact one, and a tie goes to the even mantissa. Exponents are not limited here, since
no computation comes near the limits of the format. A fraction is written with a fixed number of places by
rounding its exact value, where a tie goes to the even digit.
-/

namespace StackDepth

/-- The quotient rounded to the nearest integer, a tie to the even one. -/
def roundDiv (num den : Nat) : Nat :=
  let q := num / den
  let r := num % den
  if 2 * r < den then q else if den < 2 * r then q + 1 else q + q % 2

/-- The number `mantissa * 2 ^ exponent` with a sign. -/
structure Binary64 where
  /-- The number is below zero, or the zero below zero. -/
  negative : Bool := false
  /-- The mantissa, at most `2 ^ 53`. -/
  mantissa : Nat := 0
  /-- The exponent. -/
  exponent : Int := 0
deriving DecidableEq, Inhabited

namespace Binary64

/-- All numbers of the format lie below this one. -/
def limit : Nat := Nat.pow 2 1024

/-- The quotient `num * 2 ^ shift / den` rounded to an integer. -/
def scaledDiv (num den : Nat) (shift : Int) : Nat :=
  roundDiv (num * Nat.pow 2 shift.toNat) (den * Nat.pow 2 (-shift).toNat)

/-- The exponent of the nearest fraction to `num / den`, where both are positive: the mantissa lies
from `2 ^ 52` to `2 ^ 53`. -/
def exponentOf (num den : Nat) : Int :=
  let e : Int := (Nat.log2 num : Int) - Nat.log2 den - 52
  if num * Nat.pow 2 (-e).toNat < den * Nat.pow 2 e.toNat * Nat.pow 2 52 then e - 1 else e

/-- The nearest fraction to `num / den`. -/
def ofRatio (negative : Bool) (num den : Nat) : Binary64 :=
  if num = 0 ∨ den = 0 then { negative }
  else
    let e := exponentOf num den
    { negative, mantissa := scaledDiv num den (-e), exponent := e }

/-- The nearest fraction to an integer. -/
def ofInt (n : Int) : Binary64 := ofRatio (n < 0) n.natAbs 1

/-- The numerator of the exact value. -/
def num (x : Binary64) : Nat := x.mantissa * Nat.pow 2 x.exponent.toNat

/-- The denominator of the exact value. -/
def den (x : Binary64) : Nat := Nat.pow 2 (-x.exponent).toNat

/-- The quotient of two fractions. -/
def div (x y : Binary64) : Binary64 :=
  ofRatio (x.negative != y.negative) (x.num * y.den) (x.den * y.num)

/-- The product of two fractions. -/
def mul (x y : Binary64) : Binary64 :=
  ofRatio (x.negative != y.negative) (x.num * y.num) (x.den * y.den)

/-- The sum of two fractions that are not negative. -/
def addPositive (x y : Binary64) : Binary64 :=
  ofRatio false (x.num * y.den + y.num * x.den) (x.den * y.den)

/-- The magnitude without what stands behind the point. -/
def floorAbs (x : Binary64) : Nat := x.num / x.den

/-- Digits with a point before the last `places` of them. -/
def pointed (places n : Nat) : String :=
  let digits := Nat.toDigits 10 n
  let digits := List.replicate (places + 1 - digits.length) '0' ++ digits
  let whole := digits.take (digits.length - places)
  let fraction := digits.drop (digits.length - places)
  String.ofList whole ++ if places = 0 then "" else "." ++ String.ofList fraction

/-- The number with a fixed number of places behind the point. -/
def fixed (places : Nat) (x : Binary64) : String :=
  (if x.negative then "-" else "") ++ pointed places (roundDiv (x.num * Nat.pow 10 places) x.den)

end Binary64

end StackDepth
