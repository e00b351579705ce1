import StackDepth.Text.Hex
import StackDepth.Text.Printable

/-!
# Quoted text

A text inside a message stands between double quotes. The quote and the backslash are escaped, seven
control characters have a letter of their own, other control characters of ASCII are written with two
digits, and characters that do not print with four or eight digits.
-/

namespace StackDepth

namespace Text

/-- The form of one character between quotes. -/
def quotedChar (c : Char) : String :=
  if c = '"' then "\\\""
  else if c = '\\' then "\\\\"
  else if c.toNat = 7 then "\\a"
  else if c.toNat = 8 then "\\b"
  else if c.toNat = 9 then "\\t"
  else if c.toNat = 10 then "\\n"
  else if c.toNat = 11 then "\\v"
  else if c.toNat = 12 then "\\f"
  else if c.toNat = 13 then "\\r"
  else if c.toNat < 0x20 ∨ c.toNat = 0x7F then "\\x" ++ lowerHex 2 c.toNat
  else if c.toNat < 0x7F then c.toString
  else if isPrintable c then c.toString
  else if c.toNat < 0x10000 then "\\u" ++ lowerHex 4 c.toNat
  else "\\U" ++ lowerHex 8 c.toNat

/-- The text between double quotes, followed by bytes that make no character, which are written with two
digits each. -/
def quotedWith (s : String) (part : List UInt8) : String :=
  "\"" ++ part.foldl (fun acc b => acc ++ "\\x" ++ lowerHex 2 b.toNat)
    (s.toList.foldl (fun acc c => acc ++ quotedChar c) "") ++ "\""

/-- The text between double quotes. -/
def quoted (s : String) : String :=
  "\"" ++ s.toList.foldl (fun acc c => acc ++ quotedChar c) "" ++ "\""

end Text

end StackDepth
