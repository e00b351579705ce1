import StackDepth.Numeral
import StackDepth.Yaml.Window

/-!
# Scalars in YAML text

A scalar may run over several lines. A single line feed inside it reads as a space, of more line feeds all
but the first are kept, and the blanks around them are dropped; `Folding` collects the text under these
rules. A plain scalar ends at a colon that a blank follows, at a comment, and inside brackets also at a
comma, a bracket or a question mark. Between single quotes only the quote itself is special, and is written
twice; between double quotes a backslash begins an escape. A scalar in lines of its own is told by its
indentation, and keeps its line ends or folds them.
-/

namespace StackDepth

namespace Yaml

/-! ### Folding -/

/-- The text of a scalar that is being read. -/
structure Folding where
  /-- The characters so far, the last one first. -/
  read : List Char := []
  /-- The blanks since the last character, the last one first. -/
  blanks : List Char := []
  /-- A line ended since the last character. -/
  broken : Bool := false
  /-- What the first line end since the last character stands for; nothing if it was escaped. -/
  first : List Char := []
  /-- What the other line ends stand for, the last one first. -/
  others : List Char := []
deriving Inhabited

namespace Folding

/-- Turns what was collected since the last character into text. -/
def settle (f : Folding) : Folding :=
  let between :=
    if !f.broken then f.blanks
    else if f.first == ['\n'] then (if f.others.isEmpty then [' '] else f.others)
    else f.others ++ f.first
  { read := between ++ f.read }

/-- Adds a character. -/
def char (f : Folding) (c : Char) : Folding := { f with read := c :: f.read }

/-- The text up to the last character. -/
def text (f : Folding) : String := String.ofList f.read.reverse

end Folding

namespace Scan

/-- Collects blanks and line ends; `refused` is asked before a blank is passed. -/
def gapOf (refused : Bool → Char → Scan Bool) (f : Folding) : Scan Folding :=
  iterate (fun (f : Folding) => do
    let c ← look 0
    if isBlank c then
      if ← refused f.broken c then failure
      pass
      need 1
      return (if f.broken then f else { f with blanks := c :: f.blanks }, true)
    else if isBreak c then
      need 2
      let b ← takeBreak
      need 1
      return (if f.broken then { f with others := b ++ f.others }
        else { f with blanks := [], first := b, broken := true }, true)
    else return (f, false)) f

/-! ### Plain scalars -/

/-- A character that divides items inside brackets. -/
def isFlowMark (c : Char) : Bool := c == ',' || c == '[' || c == ']' || c == '\x7b' || c == '\x7d'

/-- A plain scalar ends before this character. -/
def endsPlain (inFlow : Bool) (c next : Char) : Bool :=
  endsWord c || (c == ':' && endsWord next) || (inFlow && (isFlowMark c || c == '?'))

/-- Reads a word of a plain scalar. -/
def plainWord (inFlow : Bool) (f : Folding) : Scan Folding :=
  iterate (fun (f : Folding) => do
    if endsPlain inFlow (← look 0) (← look 1) then return (f, false)
    else
      let c ← take
      need 2
      return (f.settle.char c, true)) f

/-- Reads a plain scalar; lines that continue it are indented by `indent` at least. Tells also whether a line
ended behind it. -/
def plain (inFlow : Bool) (indent : Int) : Scan (String × Bool) := do
  let f ← iterate (fun (f : Folding) => do
    need 4
    if (← atMarker) || (← look 0) == '#' then return (f, false)
    else
      let f ← plainWord inFlow f
      let c ← look 0
      if !(isBlank c || isBreak c) then return (f, false)
      else
        need 1
        let f ← gapOf (fun broken c => do return broken && (← get).column < indent && c == '\t') f
        return (f, inFlow || !((← get).column < indent))) {}
  return (f.text, f.broken)

/-! ### Scalars in quotes -/

/-- The character of an escape of one letter. -/
def escaped? : Char → Option Char
  | '0' => some nul
  | 'a' => some (Char.ofNat 7)
  | 'b' => some (Char.ofNat 8)
  | 't' | '\t' => some '\t'
  | 'n' => some '\n'
  | 'v' => some (Char.ofNat 11)
  | 'f' => some (Char.ofNat 12)
  | 'r' => some '\r'
  | 'e' => some (Char.ofNat 27)
  | ' ' => some ' '
  | '"' => some '"'
  | '\'' => some '\''
  | '\\' => some '\\'
  | 'N' => some (Char.ofNat 0x85)
  | '_' => some (Char.ofNat 0xA0)
  | 'L' => some (Char.ofNat 0x2028)
  | 'P' => some (Char.ofNat 0x2029)
  | _ => none

/-- The number of digits behind the letter of a numeric escape. -/
def escapeWidth? : Char → Option Nat
  | 'x' => some 2
  | 'u' => some 4
  | 'U' => some 8
  | _ => none

/-- The character of a number in base sixteen with exactly `width` digits. -/
def numericEscape (width : Nat) : Scan Char := do
  need width
  let digits := (← get).ready.take width
  match Numeral.magnitude? 16 digits with
  | some n =>
      if digits.length = width ∧ n.isValidChar then
        passMany width
        return Char.ofNat n
      else failure
  | none => failure

/-- Reads an escape behind its backslash. -/
def escape : Scan Char := do
  let e ← look 1
  passMany 2
  match escapeWidth? e with
  | some width => numericEscape width
  | none =>
      match escaped? e with
      | some c => return c
      | none => failure

/-- Reads what stands between double quotes up to a blank, a line end or the closing quote. -/
def doubleWord (f : Folding) : Scan Folding :=
  iterate (fun (f : Folding) => do
    let c ← look 0
    if endsWord c || c == '"' then return (f, false)
    else if c == '\\' && isBreak (← look 1) then
      need 3
      pass
      passBreak
      return ({ f with broken := true }, false)
    else
      let c ← if c == '\\' then escape else take
      need 2
      return (f.char c, true)) f

/-- Reads what stands between single quotes up to a blank, a line end or the closing quote. -/
def singleWord (f : Folding) : Scan Folding :=
  iterate (fun (f : Folding) => do
    let c ← look 0
    if endsWord c then return (f, false)
    else if c == '\'' then
      if (← look 1) == '\'' then
        passMany 2
        need 2
        return (f.char '\'', true)
      else return (f, false)
    else
      pass
      need 2
      return (f.char c, true)) f

/-- Reads a scalar from its opening quote to its closing one. -/
def quoted (quote : Char) : Scan String := do
  pass
  let f ← iterate (fun (f : Folding) => do
    need 4
    if (← atMarker) || (← look 0) == nul then failure
    let f ← if quote == '"' then doubleWord f else singleWord f
    need 1
    if (← look 0) == quote then return (f, false)
    else
      let f ← gapOf (fun _ _ => return false) f
      return (f.settle, true)) {}
  pass
  return f.text

/-! ### Scalars in lines of their own -/

/-- What is done with the line ends behind the last line. -/
inductive Ending where
  /-- All are dropped. -/
  | strip
  /-- One is kept. -/
  | clip
  /-- All are kept. -/
  | keep
deriving DecidableEq, Inhabited

/-- The sign for what is done with the last line ends, if there is one. -/
def ending? : Scan (Option Ending) := do
  let c ← look 0
  if c == '+' then
    pass
    need 1
    return some .keep
  else if c == '-' then
    pass
    need 1
    return some .strip
  else return none

/-- The digit for the indentation, if there is one; it is not zero. -/
def increment? : Scan (Option Nat) := do
  let c ← look 0
  if c == '0' then failure
  else if c.isDigit then
    pass
    need 1
    return some (c.toNat - 48)
  else return none

/-- The signs behind the first character, in either order. -/
def blockSigns : Scan (Ending × Nat) := do
  need 1
  match ← ending? with
  | some e => return (e, (← increment?).getD 0)
  | none =>
      let n ← increment?
      if n.isSome then return ((← ending?).getD .clip, n.getD 0) else return (.clip, 0)

/-- Passes the rest of a line, which holds nothing but blanks and a comment. -/
def passLineRest : Scan Unit := do
  passWhile isBlank
  if (← look 0) == '#' then passWhile fun c => !endsLine c
  if !endsLine (← look 0) then failure
  if isBreak (← look 0) then
    need 2
    passBreak

/-- Passes indentation and lines without content. Gives what the line ends stand for, last first, in front of
those that came before, and the deepest indentation; no bound on the indentation is known while `indent`
is zero. -/
def blockBreaks (indent : Nat) (before : List Char) : Scan (List Char × Nat) :=
  iterate (fun (read, deepest) => do
    need 1
    iterate (fun _ => do
      if (indent == 0 || (← get).column < indent) && (← look 0) == ' ' then
        pass
        need 1
        return ((), true)
      else return ((), false)) ()
    let column := (← get).column
    let deepest := max deepest column
    if (indent == 0 || column < indent) && (← look 0) == '\t' then failure
    if isBreak (← look 0) then
      need 2
      let b ← takeBreak
      return ((b ++ read, deepest), true)
    else return ((read, deepest), false)) (before, 0)

/-- A scalar in lines of its own that is being read. -/
structure BlockText where
  /-- The characters so far, the last one first. -/
  read : List Char := []
  /-- What the end of the last line stands for. -/
  first : List Char := []
  /-- What the line ends behind it stand for, the last one first. -/
  others : List Char := []
  /-- The last line began with a blank. -/
  leading : Bool := false
deriving Inhabited

/-- Reads one line with content. -/
def blockLine (literal : Bool) (indent : Nat) (b : BlockText) : Scan BlockText := do
  let blank := isBlank (← look 0)
  let folds := !literal && !b.leading && !blank && b.first == ['\n']
  let joint := if folds then (if b.others.isEmpty then [' '] else []) else b.first
  let read ← takeWhile (fun c => !endsLine c) (b.others ++ joint ++ b.read)
  need 2
  let first ← takeBreak
  let (others, _) ← blockBreaks indent []
  return { read, first, others, leading := blank }

/-- Reads a scalar in lines of its own from its first character on; `outer` is the column of the collection
around it. -/
def block (literal : Bool) (outer : Int) : Scan String := do
  pass
  let (ending, increment) ← blockSigns
  passLineRest
  let given := if increment = 0 then 0 else (max outer 0).toNat + increment
  let (others, deepest) ← blockBreaks given []
  let indent := if given = 0 then max (max deepest (outer + 1).toNat) 1 else given
  need 1
  let b ← iterate (fun (b : BlockText) => do
    let w ← get
    if w.column == indent && w.ready.headD nul != nul then
      return (← blockLine literal indent b, true)
    else return (b, false)) { others }
  let tail :=
    match ending with
    | .strip => []
    | .clip => b.first
    | .keep => b.others ++ b.first
  return String.ofList (tail ++ b.read).reverse

end Scan

end Yaml

end StackDepth
