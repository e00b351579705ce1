import StackDepth.Text.Blank
import StackDepth.Text.LetterCase
import StackDepth.Text.Quoted

/-!
# Numbers in source text

A number is written in decimal (`31`), in base sixteen (`0x1F`, `$1F`, `1Fh`) or in base two
(`0b11111`), in either case of letters, with a sign in front and white space around it. The notations
are told apart in a fixed order: first by the two prefixes, then by the dollar sign, then by the
suffix. The digits must stand for a number of 32 bits, and may carry a second sign of their own.
-/

namespace StackDepth

namespace Numeral

/-- Why a text is no number. -/
inductive Error where
  /-- There is nothing to read. -/
  | empty
  /-- The text, without its sign, is in no notation. -/
  | bad (text : String)
deriving DecidableEq, Inhabited

/-- The text of an error. -/
def Error.message : Error → String
  | .empty => "empty number"
  | .bad text => "bad number " ++ Text.quoted text

/-- The value of a digit, letters counting on from ten. -/
def digitValue? (c : Char) : Option Nat :=
  if '0' ≤ c ∧ c ≤ '9' then some (c.toNat - 48)
  else if 'a' ≤ c ∧ c ≤ 'z' then some (c.toNat - 87)
  else if 'A' ≤ c ∧ c ≤ 'Z' then some (c.toNat - 55)
  else none

/-- The value of a digit that is allowed in a base. -/
def digitIn? (base : Nat) (c : Char) : Option Nat := (digitValue? c).filter (· < base)

/-- The number that digits stand for, going on from `acc`. -/
def digitsFrom? (base : Nat) : Nat → List Char → Option Nat
  | acc, [] => some acc
  | acc, c :: cs =>
      match digitIn? base c with
      | some d => digitsFrom? base (acc * base + d) cs
      | none => none

/-- The number that at least one digit stands for. -/
def magnitude? (base : Nat) : List Char → Option Nat
  | [] => none
  | cs => digitsFrom? base 0 cs

/-- A sign that may be missing, and the digits behind it. -/
def splitSign : List Char → Bool × List Char
  | '-' :: cs => (true, cs)
  | '+' :: cs => (false, cs)
  | cs => (false, cs)

/-- The number with a sign. -/
def applySign (negative : Bool) (n : Int) : Int := if negative then -n else n

/-- One more than the largest signed number of 64 bits. -/
def signedLimit : Int := 0x8000000000000000

/-- One more than the largest unsigned number of 64 bits. -/
def unsignedLimit : Nat := 0x10000000000000000

/-- Digits with an optional sign, as a signed number of `width` bits. -/
def signed? (base width : Nat) (cs : List Char) : Option Int :=
  let (negative, digits) := splitSign cs
  (magnitude? base digits).bind fun n =>
    let v := applySign negative n
    let limit : Int := Nat.pow 2 (width - 1)
    if -limit ≤ v ∧ v < limit then some v else none

/-- The base and the digits of a text in lower case, by its notation. -/
def baseAndDigits (lower : List Char) : Nat × List Char :=
  match lower with
  | '0' :: 'x' :: cs => (16, cs)
  | '0' :: 'b' :: cs => (2, cs)
  | '$' :: cs => (16, cs)
  | cs => if 1 < cs.length ∧ cs.getLast? = some 'h' then (16, cs.dropLast) else (10, cs)

/-- Reads a number. -/
def parseList (cs : List Char) : Except Error Int :=
  let (negative, body) := splitSign (Text.trimList cs)
  if body.isEmpty then .error .empty
  else
    let (base, digits) := baseAndDigits (body.map Text.lower)
    match signed? base 32 digits with
    | some v => .ok (applySign negative v)
    | none => .error (.bad (String.ofList body))

/-- Reads a number. -/
def parse (s : String) : Except Error Int := parseList s.toList

end Numeral

end StackDepth
