import StackDepth.Binary64
import StackDepth.Instruction.Basic
import StackDepth.Numeral

/-!
# Durations

A duration is a number of nanoseconds, a signed word of 64 bits. It is written with the units hour, minute
and second, or below one second with a single smaller unit, and without zeros at the end of a fraction:
`1h1m1.001003s`, `1.235ms`. Reading accepts a sign and then numbers with fractions, each followed by a
unit.
-/

namespace StackDepth

namespace Duration

/-- Nanoseconds in a microsecond. -/
def microsecond : Nat := 1000

/-- Nanoseconds in a millisecond. -/
def millisecond : Nat := 1000000

/-- Nanoseconds in a second. -/
def second : Nat := 1000000000

/-- Nanoseconds in a minute. -/
def minute : Nat := 60 * second

/-- Nanoseconds in an hour. -/
def hour : Nat := 60 * minute

/-- The longest duration; the shortest one is one less than its opposite. -/
def longest : Int := 0x7FFFFFFFFFFFFFFF

/-- What the parts of a duration may add up to at most. -/
def most : Nat := 0x8000000000000000

/-! ### Writing -/

/-- A point and the last `places` digits of a number, without zeros at the end; nothing if all of them are
zeros. -/
def fraction (places n : Nat) : String :=
  let digits := Nat.toDigits 10 (n % Nat.pow 10 places)
  let digits := List.replicate (places - digits.length) '0' ++ digits
  let kept := (digits.reverse.dropWhile (· == '0')).reverse
  if kept.isEmpty then "" else "." ++ String.ofList kept

/-- A number of units, each of `10 ^ places` nanoseconds. -/
def inUnits (places n : Nat) (unit : String) : String :=
  Text.decimal (n / Nat.pow 10 places) ++ fraction places n ++ unit

/-- The text of a duration that is not negative. -/
def renderNat (n : Nat) : String :=
  if n = 0 then "0s"
  else if n < microsecond then inUnits 0 n "ns"
  else if n < millisecond then inUnits 3 n "µs"
  else if n < second then inUnits 6 n "ms"
  else
    let seconds := Text.decimal (n / second % 60) ++ fraction 9 n ++ "s"
    if n < minute then seconds
    else
      let minutes := Text.decimal (n / minute % 60) ++ "m" ++ seconds
      if n < hour then minutes else Text.decimal (n / hour) ++ "h" ++ minutes

/-- The text of a duration. -/
def render (d : Int) : String := if d < 0 then "-" ++ renderNat d.natAbs else renderNat d.natAbs

/-- The nearest multiple of a unit, half a unit going away from zero; what is too long for the format
becomes the longest duration. -/
def round (d : Int) (unit : Nat) : Int :=
  let n := (2 * d.natAbs + unit) / (2 * unit) * unit
  if d < 0 then max (-(n : Int)) (-longest - 1) else min n longest

/-! ### Reading -/

/-- The nanoseconds of a unit. -/
def unit? : String → Option Nat
  | "ns" => some 1
  | "us" => some microsecond
  | "µs" => some microsecond
  | "μs" => some microsecond
  | "ms" => some millisecond
  | "s" => some second
  | "m" => some minute
  | "h" => some hour
  | _ => none

/-- A digit or a point. -/
def isNumeric (c : Char) : Bool := c == '.' || c.isDigit

/-- The number that digits stand for. -/
def natOf (digits : List Char) : Nat := (Numeral.digitsFrom? 10 0 digits).getD 0

/-- As many leading digits of a fraction as fit into a word: their number and how many there are. -/
def fractionDigits : Nat → Nat → List Char → Nat × Nat
  | n, places, [] => (n, places)
  | n, places, c :: cs =>
      let m := n * 10 + (c.toNat - 48)
      if most < m ∨ (most - 1) / 10 < n then (n, places) else fractionDigits m (places + 1) cs

/-- The nanoseconds of a fraction of a unit, computed with binary fractions. -/
def fractionOf (digits : List Char) (unit : Nat) : Nat :=
  let (n, places) := fractionDigits 0 0 digits
  if n = 0 then 0
  else
    ((Binary64.ofInt n).mul ((Binary64.ofInt unit).div (.ofInt (Nat.pow 10 places)))).floorAbs

/-- Reads a number with its unit: the nanoseconds and the rest. -/
def part? (cs : List Char) : Option (Nat × List Char) := do
  let (whole, rest) := cs.span Char.isDigit
  let (fraction, rest) := match rest with
    | '.' :: more => more.span Char.isDigit
    | _ => ([], rest)
  guard (!(whole.isEmpty && fraction.isEmpty))
  let (name, rest) := rest.span fun c => !isNumeric c
  let unit ← unit? (String.ofList name)
  guard (natOf whole * unit ≤ most)
  let n := natOf whole * unit + fractionOf fraction unit
  guard (n ≤ most)
  some (n, rest)

/-- Adds up numbers with their units; `fuel` bounds their number. -/
def parts? : Nat → Nat → List Char → Option Nat
  | 0, _, _ => none
  | fuel + 1, total, cs =>
      match part? cs with
      | none => none
      | some (n, rest) =>
          if most < total + n then none
          else if rest.isEmpty then some (total + n)
          else parts? fuel (total + n) rest

/-- Reads a duration. -/
def parse? (s : String) : Option Int :=
  let (negative, cs) := Numeral.splitSign s.toList
  if cs = ['0'] then some 0
  else
    match parts? (cs.length + 1) 0 cs with
    | none => none
    | some n =>
        if negative then some (-(n : Int)) else if (n : Int) ≤ longest then some n else none

end Duration

end StackDepth
