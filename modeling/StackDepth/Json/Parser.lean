import StackDepth.Json.Basic
import StackDepth.Text.Split

/-!
# Reading JSON

`Json.parseFirst?` reads the first value of a text and gives what follows it. A control character
inside a string, a number with a leading zero and values nested more than ten thousand deep are
refused; half of a surrogate pair alone reads as the replacement character.
-/

namespace StackDepth

namespace Json

/-- The four characters that may stand between tokens. -/
def isSpace (c : Char) : Bool := c == ' ' || c == '\t' || c == '\n' || c == '\r'

/-- The text from its first character that is no space. -/
def skipSpace (cs : List Char) : List Char := cs.dropWhile isSpace

/-- The value of a digit in base sixteen. -/
def hexValue? (c : Char) : Option Nat :=
  if '0' ≤ c ∧ c ≤ '9' then some (c.toNat - 48)
  else if 'a' ≤ c ∧ c ≤ 'f' then some (c.toNat - 87)
  else if 'A' ≤ c ∧ c ≤ 'F' then some (c.toNat - 55)
  else none

/-- Four digits in base sixteen. -/
def hexUnit? : List Char → Option (Nat × List Char)
  | a :: b :: c :: d :: rest => do
      let a ← hexValue? a
      let b ← hexValue? b
      let c ← hexValue? c
      let d ← hexValue? d
      some (((a * 16 + b) * 16 + c) * 16 + d, rest)
  | _ => none

/-- The character that stands for what cannot be read. -/
def replacement : Char := Char.ofNat 0xFFFD

/-- The character of a sixteen-bit unit and, for the first half of a pair, of the second half behind
it. A half that stands alone is replaced. -/
def joinUnits (unit : Nat) (rest : List Char) : Char × List Char :=
  if 0xD800 ≤ unit ∧ unit < 0xDC00 then
    match rest with
    | '\\' :: 'u' :: more =>
        match hexUnit? more with
        | some (low, after) =>
            if 0xDC00 ≤ low ∧ low < 0xE000 then
              (Char.ofNat (0x10000 + (unit - 0xD800) * 0x400 + (low - 0xDC00)), after)
            else (replacement, rest)
        | none => (replacement, rest)
    | _ => (replacement, rest)
  else if 0xDC00 ≤ unit ∧ unit < 0xE000 then (replacement, rest)
  else (Char.ofNat unit, rest)

/-- The character of an escape of one letter. -/
def escaped? : Char → Option Char
  | '"' => some '"'
  | '\\' => some '\\'
  | '/' => some '/'
  | 'b' => some (Char.ofNat 8)
  | 'f' => some (Char.ofNat 12)
  | 'n' => some '\n'
  | 'r' => some '\r'
  | 't' => some '\t'
  | _ => none

/-- Reads a string up to its closing quote; `read` holds the characters so far, last first. -/
def stringTail? : Nat → List Char → List Char → Option (String × List Char)
  | 0, _, _ => none
  | _ + 1, _, [] => none
  | fuel + 1, read, c :: cs =>
      if c = '"' then some (String.ofList read.reverse, cs)
      else if c = '\\' then
        match cs with
        | 'u' :: more =>
            match hexUnit? more with
            | some (unit, rest) =>
                let (d, rest) := joinUnits unit rest
                stringTail? fuel (d :: read) rest
            | none => none
        | e :: more =>
            match escaped? e with
            | some d => stringTail? fuel (d :: read) more
            | none => none
        | [] => none
      else if c.toNat < 0x20 then none
      else stringTail? fuel (c :: read) cs

/-- The digits at the start of a text, at least one. -/
def digits? (cs : List Char) : Option (List Char × List Char) :=
  match cs.span Char.isDigit with
  | ([], _) => none
  | found => some found

/-- The digits before the point: a lone zero or digits that do not start with one. -/
def wholePart? : List Char → Option (List Char × List Char)
  | '0' :: cs => some (['0'], cs)
  | cs => digits? cs

/-- The point and the digits behind it, if there is a point. -/
def fractionPart? : List Char → Option (List Char × List Char)
  | '.' :: cs => (digits? cs).map fun (ds, rest) => ('.' :: ds, rest)
  | cs => some ([], cs)

/-- The exponent, if there is one. -/
def exponentPart? : List Char → Option (List Char × List Char)
  | e :: cs =>
      if e = 'e' ∨ e = 'E' then
        match cs with
        | s :: more =>
            if s = '+' ∨ s = '-' then (digits? more).map fun (ds, rest) => (e :: s :: ds, rest)
            else (digits? cs).map fun (ds, rest) => (e :: ds, rest)
        | [] => none
      else some ([], e :: cs)
  | [] => some ([], [])

/-- A number as written. -/
def number? (cs : List Char) : Option (String × List Char) := do
  let (sign, cs) := match cs with
    | '-' :: more => (['-'], more)
    | _ => ([], cs)
  let (whole, cs) ← wholePart? cs
  let (fraction, cs) ← fractionPart? cs
  let (exponent, cs) ← exponentPart? cs
  some (String.ofList (sign ++ whole ++ fraction ++ exponent), cs)

mutual

/-- Reads a value. `depth` bounds the nesting and `fuel` the number of calls. -/
def value? (fuel depth : Nat) (cs : List Char) : Option (Json × List Char) :=
  match fuel with
  | 0 => none
  | fuel + 1 =>
      match skipSpace cs with
      | '{' :: rest =>
          match depth, skipSpace rest with
          | 0, _ => none
          | _ + 1, '}' :: rest => some (.object [], rest)
          | depth + 1, rest => fields? fuel depth [] rest
      | '[' :: rest =>
          match depth, skipSpace rest with
          | 0, _ => none
          | _ + 1, ']' :: rest => some (.array [], rest)
          | depth + 1, rest => items? fuel depth [] rest
      | '"' :: rest => (stringTail? (rest.length + 1) [] rest).map fun (s, rest) => (.string s, rest)
      | 't' :: 'r' :: 'u' :: 'e' :: rest => some (.bool true, rest)
      | 'f' :: 'a' :: 'l' :: 's' :: 'e' :: rest => some (.bool false, rest)
      | 'n' :: 'u' :: 'l' :: 'l' :: rest => some (.null, rest)
      | rest => (number? rest).map fun (n, rest) => (.number n, rest)

/-- Reads the items of an array up to its closing bracket; `read` holds the items so far. -/
def items? (fuel depth : Nat) (read : List Json) (cs : List Char) : Option (Json × List Char) :=
  match fuel with
  | 0 => none
  | fuel + 1 =>
      match value? fuel depth cs with
      | none => none
      | some (v, rest) =>
          match skipSpace rest with
          | ',' :: rest => items? fuel depth (v :: read) rest
          | ']' :: rest => some (.array (v :: read).reverse, rest)
          | _ => none

/-- Reads the fields of an object up to its closing brace. -/
def fields? (fuel depth : Nat) (read : List (String × Json)) (cs : List Char) :
    Option (Json × List Char) :=
  match fuel with
  | 0 => none
  | fuel + 1 =>
      match skipSpace cs with
      | '"' :: rest =>
          match stringTail? (rest.length + 1) [] rest with
          | none => none
          | some (name, rest) =>
              match skipSpace rest with
              | ':' :: rest =>
                  match value? fuel depth rest with
                  | none => none
                  | some (v, rest) =>
                      match skipSpace rest with
                      | ',' :: rest => fields? fuel depth ((name, v) :: read) rest
                      | '}' :: rest => some (.object ((name, v) :: read).reverse, rest)
                      | _ => none
              | _ => none
      | _ => none

end

/-- How deep arrays and objects may be nested. -/
def maxDepth : Nat := 10000

/-- The first value of a text and what follows it. -/
def parseFirst? (s : String) : Option (Json × List Char) :=
  value? (s.length + 1) maxDepth s.toList

/-- The first value of a text; what follows it is ignored. -/
def parse? (s : String) : Option Json := (parseFirst? s).map Prod.fst

end Json

end StackDepth
