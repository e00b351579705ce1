import StackDepth.Json.Basic
import StackDepth.Text.Hex

/-!
# Writing JSON

Strings escape the quote, the backslash, control characters, the three characters with a meaning in
markup and the two line separators; everything else stands as itself. A value is written on one line or
indented by two blanks for each level, where an empty list or object stays on its line.
-/

namespace StackDepth

namespace Json

/-- The form of one character inside a string. -/
def escape (c : Char) : String :=
  if c = '"' then "\\\""
  else if c = '\\' then "\\\\"
  else if c = '\n' then "\\n"
  else if c = '\r' then "\\r"
  else if c = '\t' then "\\t"
  else if c.toNat = 8 then "\\b"
  else if c.toNat = 12 then "\\f"
  else if c.toNat < 0x20 ∨ c = '<' ∨ c = '>' ∨ c = '&' ∨ c.toNat = 0x2028 ∨ c.toNat = 0x2029 then
    "\\u" ++ Text.lowerHex 4 c.toNat
  else c.toString

/-- A string between quotes. -/
def quote (s : String) : String :=
  "\"" ++ s.toList.foldl (fun acc c => acc ++ escape c) "" ++ "\""

mutual

/-- Appends the value on one line. -/
def compressTo (acc : String) : Json → String
  | .null => acc ++ "null"
  | .bool b => acc ++ if b then "true" else "false"
  | .number text => acc ++ text
  | .string s => acc ++ quote s
  | .array items => compressItems (acc ++ "[") items ++ "]"
  | .object fields => compressFields (acc ++ "\x7b") fields ++ "\x7d"

/-- Appends items separated by commas. -/
def compressItems (acc : String) : List Json → String
  | [] => acc
  | [j] => compressTo acc j
  | j :: rest => compressItems (compressTo acc j ++ ",") rest

/-- Appends fields separated by commas. -/
def compressFields (acc : String) : List (String × Json) → String
  | [] => acc
  | [(name, j)] => compressTo (acc ++ quote name ++ ":") j
  | (name, j) :: rest => compressFields (compressTo (acc ++ quote name ++ ":") j ++ ",") rest

end

/-- The value on one line. -/
def compress (j : Json) : String := compressTo "" j

/-- A line feed and the blanks of a level. -/
def newline (level : Nat) : String := "\n" ++ String.ofList (List.replicate (2 * level) ' ')

mutual

/-- Appends the value indented; `level` is the level it stands at. -/
def prettyTo (level : Nat) (acc : String) : Json → String
  | .array (j :: rest) =>
      prettyItems (level + 1) (acc ++ "[" ++ newline (level + 1)) (j :: rest) ++ newline level ++ "]"
  | .object (f :: rest) =>
      prettyFields (level + 1) (acc ++ "\x7b" ++ newline (level + 1)) (f :: rest) ++ newline level ++
        "\x7d"
  | .array [] => acc ++ "[]"
  | .object [] => acc ++ "\x7b\x7d"
  | .null => acc ++ "null"
  | .bool b => acc ++ if b then "true" else "false"
  | .number text => acc ++ text
  | .string s => acc ++ quote s

/-- Appends items on lines of their own. -/
def prettyItems (level : Nat) (acc : String) : List Json → String
  | [] => acc
  | [j] => prettyTo level acc j
  | j :: rest => prettyItems level (prettyTo level acc j ++ "," ++ newline level) rest

/-- Appends fields on lines of their own. -/
def prettyFields (level : Nat) (acc : String) : List (String × Json) → String
  | [] => acc
  | [(name, j)] => prettyTo level (acc ++ quote name ++ ": ") j
  | (name, j) :: rest =>
      prettyFields level (prettyTo level (acc ++ quote name ++ ": ") j ++ "," ++ newline level) rest

end

/-- The value indented, from the first level. -/
def pretty (j : Json) : String := prettyTo 0 "" j

end Json

end StackDepth
