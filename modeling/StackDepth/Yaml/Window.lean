/-!
# A text seen through a window

A text is read in pieces of 512 bytes. The window holds the characters that were read and not yet passed;
`need` reads on until it holds enough of them, and fills up with null characters behind the end. A text is
refused as soon as a piece with a character is read that no text may have, so that a piece that nobody
asks for does no harm.

A byte order mark may stand in front of a text, and another one at the beginning of the window: as long as
it stands there, every line begins one character later. Reading on moves the beginning of the window to the
character that comes next.
-/

namespace StackDepth

namespace Yaml

/-! ### Characters -/

/-- What stands behind the end of a text. -/
def nul : Char := Char.ofNat 0

/-- The byte order mark. -/
def orderMark : Char := Char.ofNat 0xFEFF

/-- A space or a tab. -/
def isBlank (c : Char) : Bool := c == ' ' || c == '\t'

/-- A line end of more than one byte. -/
def isWideBreak (c : Char) : Bool := c.toNat == 0x85 || c.toNat == 0x2028 || c.toNat == 0x2029

/-- A character that ends a line. -/
def isBreak (c : Char) : Bool := c == '\n' || c == '\r' || isWideBreak c

/-- The line or the text ends here. -/
def endsLine (c : Char) : Bool := c == nul || isBreak c

/-- A word ends here. -/
def endsWord (c : Char) : Bool := isBlank c || endsLine c

/-- A character that may stand in a text. -/
def isAllowed (c : Char) : Bool :=
  c == '\t' || c == '\n' || c == '\r' || (' ' ≤ c && c ≤ '~') || c.toNat == 0x85 ||
    (0xA0 ≤ c.toNat && c.toNat ≤ 0xFFFD) || 0x10000 ≤ c.toNat

/-! ### Windows -/

/-- A place in a text. -/
structure Window where
  /-- The characters that were read and not passed. -/
  ready : List Char := []
  /-- The pieces that were not read. -/
  later : List (List Char) := []
  /-- The piece behind them holds a character that no text may have. -/
  spoiled : Bool := false
  /-- The window began with a byte order mark when it was last moved. -/
  marked : Bool := false
  /-- The number of characters of the whole text. -/
  size : Nat := 0
  /-- The number of characters that were passed. -/
  index : Nat := 0
  /-- The number of lines that were passed. -/
  line : Nat := 0
  /-- The number of characters that were passed in this line. -/
  column : Nat := 0
  /-- The number of lines that ended since the last character other than a blank. -/
  breaks : Nat := 0
deriving Inhabited

/-- The number of bytes of a piece. -/
def pieceSize : Nat := 512

/-- Cuts a text into pieces, the first of which has room for `room` bytes; `piece` holds what is in it
already, last first. -/
def pieces (room : Nat) (piece : List Char) : List Char → List (List Char)
  | [] => if piece.isEmpty then [] else [piece.reverse]
  | c :: cs =>
      if c.utf8Size ≤ room then pieces (room - c.utf8Size) (c :: piece) cs
      else piece.reverse :: pieces (pieceSize - c.utf8Size) [c] cs

/-- The beginning of a text. A byte order mark is dropped, and an empty text is one empty line. -/
def Window.ofText (text : String) : Window :=
  let cs := if text.isEmpty then ['\n'] else text.toList
  let all :=
    match cs with
    | [] => []
    | c :: rest =>
        if c == orderMark then pieces (pieceSize - c.utf8Size) [] rest else pieces pieceSize [] cs
  let sound := all.takeWhile fun piece => piece.all isAllowed
  { later := sound, spoiled := sound.length < all.length, size := cs.length }

/-- The list has `n` elements at least. -/
def reaches {α : Type} : Nat → List α → Bool
  | 0, _ => true
  | _ + 1, [] => false
  | n + 1, _ :: rest => reaches n rest

/-- Reads pieces until there are `n` characters. Behind the end one null character is added. -/
def Window.readOn (w : Window) (n : Nat) (ready : List Char) : List (List Char) → Option Window
  | [] => if w.spoiled then none else some { w with ready := ready ++ [nul], later := [] }
  | piece :: later =>
      let ready := ready ++ piece
      if reaches n ready then some { w with ready, later } else w.readOn n ready later

/-! ### Scanning -/

/-- Reads a text through a window, or refuses it. -/
abbrev Scan := StateT Window Option

namespace Scan

/-- Reads on until the window holds `n` characters. -/
def need (n : Nat) : Scan Unit := fun w =>
  if reaches n w.ready then some ((), w)
  else (w.readOn n w.ready w.later).map fun w => ((), { w with marked := w.ready.head? == some orderMark })

/-- The character `i` places ahead. -/
def look (i : Nat) : Scan Char := fun w => some (w.ready.getD i nul, w)

/-- Passes a character. -/
def pass : Scan Unit := modify fun w =>
  { w with
    ready := w.ready.drop 1, index := w.index + 1, column := w.column + 1
    breaks := if isBlank (w.ready.headD nul) then w.breaks else 0 }

/-- Passes `n` characters. -/
def passMany : Nat → Scan Unit
  | 0 => return
  | n + 1 => do
      pass
      passMany n

/-- Passes a character and gives it. -/
def take : Scan Char := do
  let c ← look 0
  pass
  return c

/-- Moves behind a line end of `n` characters. -/
def passBreakOf (n : Nat) : Scan Unit := modify fun w =>
  { w with
    ready := w.ready.drop n, index := w.index + n, line := w.line + 1, column := 0
    breaks := w.breaks + 1 }

/-- Passes a line end, if there is one, and gives what it stands for: a line feed, or the character itself
for the separators of lines and of paragraphs. -/
def takeBreak : Scan (List Char) := do
  let c ← look 0
  if c == '\r' && (← look 1) == '\n' then
    passBreakOf 2
    return ['\n']
  else if c.toNat == 0x2028 || c.toNat == 0x2029 then
    passBreakOf 1
    return [c]
  else if isBreak c then
    passBreakOf 1
    return ['\n']
  else return []

/-- Passes a line end, if there is one. -/
def passBreak : Scan Unit := do
  let _ ← takeBreak

/-- Carries out a step until it says that there is no more to do. Every step passes a character, which bounds
their number. -/
def repeatStep {α : Type} (step : α → Scan (α × Bool)) : Nat → α → Scan α
  | 0, _ => failure
  | n + 1, a => do
      let (a, more) ← step a
      if more then repeatStep step n a else return a

/-- Carries out a step that passes characters until it says that there is no more to do. -/
def iterate {α : Type} (step : α → Scan (α × Bool)) (a : α) : Scan α := do
  repeatStep step ((← get).size + 4) a

/-- Passes the characters of a kind and gives them, last first, in front of those that came before. -/
def takeWhile (p : Char → Bool) (before : List Char) : Scan (List Char) := do
  need 1
  iterate (fun read => do
    if p (← look 0) then
      let c ← take
      need 1
      return (c :: read, true)
    else return (read, false)) before

/-- Passes the characters of a kind. -/
def passWhile (p : Char → Bool) : Scan Unit := do
  let _ ← takeWhile p []

/-- Three hyphens or three points at the beginning of a line divide documents. -/
def atMarker : Scan Bool := do
  let w ← get
  return w.column == 0 &&
    (w.ready.take 3 == ['-', '-', '-'] || w.ready.take 3 == ['.', '.', '.']) &&
    endsWord (w.ready.getD 3 nul)

/-! ### Comments -/

/-- How far ahead a comment is looked for. -/
def commentReach : Nat := 512

/-- The place of the first character behind blanks, counted from here, if it is near enough. -/
def behindBlanks : Nat → Nat → Scan (Option Nat)
  | 0, _ => return none
  | left + 1, i => do
      need (i + 1)
      if isBlank (← look i) then behindBlanks left (i + 1) else return some i

/-- Passes a comment that follows in the same line. -/
def passLineComment : Scan Unit := do
  if (← get).breaks == 0 then
    match ← behindBlanks commentReach 0 with
    | some i => if (← look i) == '#' then passWhile fun c => !endsLine c
    | none => return

/-- The place of the next comment, if nothing but blanks and lines without content come before it. -/
def nextComment : Nat → Nat → Scan (Option Nat)
  | 0, _ => return none
  | left + 1, i => do
      need (i + 1)
      let c ← look i
      if isBlank c || c == '\n' || c == '\r' then nextComment left (i + 1)
      else if isWideBreak c then
        need (i + 2)
        return none
      else return if c == '#' then some i else none

/-- Passes blanks and line ends up to a place. -/
def passUpTo (index : Nat) : Scan Unit :=
  iterate (fun _ => do
    need 1
    if index ≤ (← get).index then return ((), false)
    else
      if isBreak (← look 0) then
        need 2
        passBreak
      else pass
      return ((), true)) ()

/-- Passes a comment and the comments in the lines below it, up to the end of the last one. -/
def passComments : Scan Unit :=
  iterate (fun _ => do
    passWhile fun c => !endsLine c
    let reach := if isWideBreak (← look 0) then 0 else commentReach - 1
    match ← nextComment reach 1 with
    | some i =>
        passUpTo ((← get).index + i)
        return ((), true)
    | none => return ((), false)) ()

/-- Passes blanks, comments and line ends up to the next token. A tab is passed only where it does not
indent. Outside brackets a new line may begin with a key; the result tells whether a key may begin here. -/
def passGap (inFlow keyAllowed : Bool) : Scan Bool :=
  iterate (fun keyAllowed => do
    need 1
    let w ← get
    if w.column == 0 && w.marked then pass
    passWhile fun c => c == ' ' || (c == '\t' && (inFlow || !keyAllowed))
    if (← look 0) == '#' then passComments
    if isBreak (← look 0) then
      need 2
      passBreak
      return (keyAllowed || !inFlow, true)
    else return (keyAllowed, false)) keyAllowed

end Scan

end Yaml

end StackDepth
