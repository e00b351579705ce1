import StackDepth.Numeral

/-!
# Whole numbers in options

A whole number is written in decimal or behind `0x`, `0o` and `0b` in base sixteen, eight and two; a number
that begins with a zero is in base eight. Underscores may separate digits, and a sign may stand in front.
-/

namespace StackDepth

namespace Numeral

/-- Why a text is no whole number of 64 bits. -/
inductive LiteralError where
  /-- The text has another form. -/
  | malformed
  /-- The number needs more bits. -/
  | outOfRange
deriving DecidableEq, Inhabited

/-- The base of a number by its first characters, and the digits. -/
def literalBase : List Char → Nat × List Char
  | '0' :: c :: d :: cs =>
      match c.toLower with
      | 'x' => (16, d :: cs)
      | 'o' => (8, d :: cs)
      | 'b' => (2, d :: cs)
      | _ => (8, '0' :: c :: d :: cs)
  | '0' :: cs => (8, '0' :: cs)
  | cs => (10, cs)

/-- The number that digits with underscores among them stand for, going on from `acc`. A number that grows
too large is refused before later digits are looked at. -/
def literalDigits (base : Nat) : Nat → List Char → Except LiteralError Nat
  | acc, [] => .ok acc
  | acc, c :: cs =>
      if c = '_' then literalDigits base acc cs
      else
        match digitIn? base c with
        | none => .error .malformed
        | some d =>
            if unsignedLimit ≤ acc * base + d then .error .outOfRange
            else literalDigits base (acc * base + d) cs

/-- Every underscore stands between two digits; `afterDigit` tells whether a digit, or the mark of a base,
stands in front. -/
def separates : Bool → List Char → Bool
  | afterDigit, [] => afterDigit
  | afterDigit, c :: cs => if c = '_' then afterDigit && separates false cs else separates true cs

/-- Reads a whole number of 64 bits. -/
def literal (cs : List Char) : Except LiteralError Int := do
  let (negative, body) := splitSign cs
  let (base, digits) := literalBase body
  if digits.isEmpty then throw .malformed
  let n ← literalDigits base 0 digits
  if !separates (digits.length < body.length) digits then throw .malformed
  let v := applySign negative n
  if -signedLimit ≤ v ∧ v < signedLimit then return v else throw .outOfRange

end Numeral

end StackDepth
