import StackDepth.Yaml.Scalar

/-!
# Anchors, tags and directives

An anchor names a node, and an alias repeats a node by that name. A tag says what a node stands for; it is
written out, or as a handle and a suffix. A directive at the beginning of a document tells its version or
what a handle stands for.
-/

namespace StackDepth

namespace Yaml

/-- A tag as it is written. -/
structure Tag where
  /-- The handle; empty if the tag is written out. -/
  handle : String := ""
  /-- What follows the handle. -/
  suffix : String := ""
deriving DecidableEq, Inhabited

/-- A line that tells how a document is to be read. -/
inductive Directive where
  /-- The version of the format. -/
  | version (major minor : Nat)
  /-- What a handle stands for. -/
  | handle (name stands : String)
deriving DecidableEq, Inhabited

namespace Scan

/-- A letter, a digit, a hyphen or an underscore. -/
def isNameChar (c : Char) : Bool := c.isAlphanum || c == '-' || c == '_'

/-- Reads a name behind the character that announces it. -/
def anchorName : Scan String := do
  pass
  let name ← takeWhile isNameChar []
  let c ← look 0
  if name.isEmpty || !(endsWord c || "?:,]\x7d%@\x60".toList.contains c) then failure
  return String.ofList name.reverse

/-- A character that may stand in a tag. -/
def isTagChar (c : Char) : Bool := isNameChar c || ";/?:@&=+$,.!~*'()[]%".toList.contains c

/-- The length of the byte sequence that begins with a byte. -/
def sequenceLength? (byte : Nat) : Option Nat :=
  if byte < 0x80 then some 1
  else if 0xC0 ≤ byte ∧ byte < 0xE0 then some 2
  else if 0xE0 ≤ byte ∧ byte < 0xF0 then some 3
  else if 0xF0 ≤ byte ∧ byte < 0xF8 then some 4
  else none

/-- Reads a byte that is written as a percent sign and two digits. -/
def tagByte : Scan Nat := do
  need 3
  match (← get).ready with
  | '%' :: a :: b :: _ =>
      match Numeral.magnitude? 16 [a, b] with
      | some n =>
          passMany 3
          return n
      | none => failure
  | _ => failure

/-- Reads `n` bytes that continue a sequence. -/
def tagBytes : Nat → Scan Unit
  | 0 => return
  | n + 1 => do
      let byte ← tagByte
      if byte < 0x80 || 0xC0 ≤ byte then failure
      tagBytes n

/-- Reads a character that is written byte by byte. Beyond ASCII one stands for all of them, since no tag
with a meaning has one. -/
def tagEscape : Scan Char := do
  let byte ← tagByte
  match sequenceLength? byte with
  | some n =>
      tagBytes (n - 1)
      return if byte < 0x80 then Char.ofNat byte else Char.ofNat 0xFFFD
  | none => failure

/-- Reads the suffix of a tag behind `head`; there must be one if `head` is empty. -/
def tagSuffix (head : List Char) : Scan String := do
  need 1
  let read ← iterate (fun (read : List Char) => do
    let c ← look 0
    if isTagChar c then
      let c ← if c == '%' then tagEscape else take
      need 1
      return (c :: read, true)
    else return (read, false)) (head.drop 1).reverse
  if head.isEmpty && read.isEmpty then failure
  return String.ofList read.reverse

/-- Reads a handle: an exclamation mark and, if another one follows, a name between the two. -/
def tagHandle : Scan (List Char) := do
  need 1
  if (← look 0) != '!' then failure
  pass
  let name ← takeWhile isNameChar ['!']
  if (← look 0) == '!' then
    pass
    return ('!' :: name).reverse
  else return name.reverse

/-- The list is a handle with an exclamation mark at both ends. -/
def isHandle (cs : List Char) : Bool := 1 < cs.length && cs.getLast? == some '!'

/-- Reads a tag. -/
def tag : Scan Tag := do
  need 2
  let t ←
    if (← look 1) == '<' then do
      passMany 2
      let suffix ← tagSuffix []
      if (← look 0) != '>' then failure
      pass
      pure { suffix }
    else do
      let head ← tagHandle
      if isHandle head then
        let suffix ← tagSuffix []
        pure { handle := String.ofList head, suffix }
      else
        let suffix ← tagSuffix head
        if suffix.isEmpty then pure { suffix := String.ofList head } else pure { handle := "!", suffix }
  need 1
  if !endsWord (← look 0) then failure
  return t

/-! ### Directives -/

/-- Reads a number of one or two digits. -/
def versionNumber : Scan Nat := do
  let digits ← takeWhile Char.isDigit []
  match Numeral.magnitude? 10 digits.reverse with
  | some n => if digits.length ≤ 2 then return n else failure
  | none => failure

/-- Reads the version of the format. -/
def versionDirective : Scan Directive := do
  passWhile isBlank
  let major ← versionNumber
  if (← look 0) != '.' then failure
  pass
  let minor ← versionNumber
  return .version major minor

/-- Reads what a handle stands for. -/
def handleDirective : Scan Directive := do
  passWhile isBlank
  let name ← tagHandle
  if !(isHandle name || name == ['!']) then failure
  need 1
  if !isBlank (← look 0) then failure
  passWhile isBlank
  let stands ← tagSuffix []
  need 1
  if !endsWord (← look 0) then failure
  return .handle (String.ofList name) stands

/-- Reads a directive and the rest of its line. -/
def directive : Scan Directive := do
  pass
  let name ← takeWhile isNameChar []
  if name.isEmpty || !endsWord (← look 0) then failure
  let d ←
    match String.ofList name.reverse with
    | "YAML" => versionDirective
    | "TAG" => handleDirective
    | _ => failure
  passLineRest
  return d

end Scan

end Yaml

end StackDepth
