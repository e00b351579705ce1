import StackDepth.Binary64
import StackDepth.Numeral
import StackDepth.Text.Digit
import StackDepth.Text.LetterCase
import StackDepth.Text.Quoted

/-!
# Sizes in bytes

A size is written as a number, which may have a fraction and commas, and the name of a unit in either case
of letters: `k`, `kb` stand for a thousand bytes, `ki`, `kib` for 1024, and so on up to `e`. For people a
size is shown in the largest binary unit, with one place behind the point below ten.

Only the digits of ASCII make a number. The digits of other scripts are taken for a part of it and are
refused then: as many bytes are cut off as the number has characters, which ends inside such a digit.
-/

namespace StackDepth

namespace Size

/-- Why a text is no size. -/
inductive Error where
  /-- What stands before the unit is no number; it may end with a part of a character. -/
  | badNumber (text : String) (part : List UInt8)
  /-- The number is beyond all limits. -/
  | outOfRange (text : String)
  /-- The size needs more than 64 bits. -/
  | tooLarge (text : String)
  /-- There is no such unit. -/
  | unknownUnit (name : String)
deriving DecidableEq, Inhabited

/-- The text of an error. -/
def Error.message : Error → String
  | .badNumber text part =>
      "strconv.ParseFloat: parsing " ++ Text.quotedWith text part ++ ": invalid syntax"
  | .outOfRange text => "strconv.ParseFloat: parsing " ++ Text.quoted text ++ ": value out of range"
  | .tooLarge text => "too large: " ++ text
  | .unknownUnit name => "unhandled size name: " ++ name

/-- The bytes of a unit, by its name in lower case. -/
def unit? : String → Option Nat
  | "" | "b" => some 1
  | "ki" | "kib" => some (Nat.pow 1024 1)
  | "k" | "kb" => some (Nat.pow 1000 1)
  | "mi" | "mib" => some (Nat.pow 1024 2)
  | "m" | "mb" => some (Nat.pow 1000 2)
  | "gi" | "gib" => some (Nat.pow 1024 3)
  | "g" | "gb" => some (Nat.pow 1000 3)
  | "ti" | "tib" => some (Nat.pow 1024 4)
  | "t" | "tb" => some (Nat.pow 1000 4)
  | "pi" | "pib" => some (Nat.pow 1024 5)
  | "p" | "pb" => some (Nat.pow 1000 5)
  | "ei" | "eib" => some (Nat.pow 1024 6)
  | "e" | "eb" => some (Nat.pow 1000 6)
  | _ => none

/-- Digits with at most one point among them, as a numerator and the number of places. -/
def decimal? (cs : List Char) : Option (Nat × Nat) :=
  let (whole, rest) := cs.span Char.isDigit
  match rest with
  | [] => (Numeral.magnitude? 10 whole).map fun n => (n, 0)
  | '.' :: fraction =>
      if fraction.all Char.isDigit then
        (Numeral.magnitude? 10 (whole ++ fraction)).map fun n => (n, fraction.length)
      else none
  | _ => none

/-- The first `n` bytes of a text: the characters that fit, and the bytes of a character that does not. -/
def cut : Nat → List Char → List Char × List UInt8
  | _, [] => ([], [])
  | n, c :: cs =>
      if c.utf8Size ≤ n then
        let (whole, part) := cut (n - c.utf8Size) cs
        (c :: whole, part)
      else ([], (String.singleton c).toUTF8.toList.take n)

/-- Reads a size. -/
def parse (s : String) : Except Error Nat :=
  let number := s.toList.takeWhile fun c => Text.isDecimal c || c == '.' || c == ','
  let (whole, part) := cut number.length s.toList
  let digits := whole.filter (· ≠ ',')
  let name := Text.toLower (Text.trim (String.ofList (s.toList.drop whole.length)))
  match if part.isEmpty then decimal? digits else none with
  | none => .error (.badNumber (String.ofList digits) part)
  | some (n, places) =>
      let x := Binary64.ofRatio false n (Nat.pow 10 places)
      if Binary64.limit ≤ x.floorAbs then .error (.outOfRange (String.ofList digits))
      else
        match unit? name with
        | none => .error (.unknownUnit name)
        | some unit =>
            let bytes := (x.mul (.ofInt unit)).floorAbs
            if Numeral.unsignedLimit ≤ bytes then .error (.tooLarge s) else .ok bytes

/-! ### For people -/

/-- The names of the binary units. -/
def unitNames : List String := ["B", "KiB", "MiB", "GiB", "TiB", "PiB", "EiB"]

/-- How far below `1024 ^ k` a size may lie to be shown in unit `k`. The unit is the whole part of a
logarithm with 53 bits, which cannot tell the largest powers from their neighbours. -/
def unitSlack (k : Nat) : Nat := if k = 5 then 3 else if k = 6 then 6208 else 0

/-- The unit in which a size is shown. -/
def unitOf (n : Nat) : Nat :=
  ((List.range 7).filter fun k => Nat.pow 1024 k ≤ n + unitSlack k).getLastD 0

/-- A size for people. -/
def render (n : Nat) : String :=
  if n < 10 then Text.decimal n ++ " B"
  else
    let k := unitOf n
    let scaled := ((Binary64.ofInt n).div (.ofInt (Nat.pow 1024 k))).mul (.ofInt 10)
    let tenths := (scaled.addPositive (.ofRatio false 1 2)).floorAbs
    (Binary64.ofRatio false tenths 10).fixed (if tenths < 100 then 1 else 0) ++ " " ++
      unitNames.getD k ""

end Size

end StackDepth
