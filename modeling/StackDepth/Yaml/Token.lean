import StackDepth.Yaml.Tag

/-!
# Tokens

A text is a stream of tokens: the signs of the format, scalars, and signs for what only the indentation
tells, such as the beginning and the end of a collection. A key is known as such only when its colon is
reached, so that the tokens that announce it are put in front of it afterwards. For that the stream
remembers where a key may have begun, one place for each level of brackets. A key stands in one line, and
its colon comes within 1024 characters.

`TokenStream.peek` gives the next token. It looks two tokens further than that, and as far as the colon of a
key that may begin there; the rest of the text is not read.
-/

namespace StackDepth

namespace Yaml

/-- A token. -/
inductive Token where
  /-- The text begins. -/
  | streamStart
  /-- The text ends. -/
  | streamEnd
  /-- A directive. -/
  | directive (d : Directive)
  /-- A document begins. -/
  | documentStart
  /-- A document ends. -/
  | documentEnd
  /-- A sequence begins that is told by indentation. -/
  | blockSequence
  /-- A mapping begins that is told by indentation. -/
  | blockMapping
  /-- A collection ends that is told by indentation. -/
  | blockEnd
  /-- A sequence begins that is told by brackets. -/
  | flowSequence
  /-- A sequence ends that is told by brackets. -/
  | flowSequenceEnd
  /-- A mapping begins that is told by brackets. -/
  | flowMapping
  /-- A mapping ends that is told by brackets. -/
  | flowMappingEnd
  /-- An item begins with a dash. -/
  | blockEntry
  /-- A comma between items. -/
  | flowEntry
  /-- A key begins. -/
  | key
  /-- A value begins. -/
  | value
  /-- A node that is repeated. -/
  | alias (name : String)
  /-- A name for the node that follows. -/
  | anchor (name : String)
  /-- What the node that follows stands for. -/
  | tag (t : Tag)
  /-- A scalar. -/
  | scalar (text : String) (quoted : Bool)
deriving DecidableEq, Inhabited

/-- A place where a key may have begun. -/
structure KeyPlace where
  /-- A key may have begun here. -/
  possible : Bool := false
  /-- The token at this place is kept until it is known whether it is a key. -/
  watched : Bool := true
  /-- Nothing but a key may stand here. -/
  required : Bool := false
  /-- The number of the token at this place. -/
  number : Nat := 0
  /-- The number of characters before the place. -/
  index : Nat := 0
  /-- The number of lines before the place. -/
  line : Nat := 0
  /-- The column of the place. -/
  column : Nat := 0
deriving Inhabited

/-- The tokens of a text. -/
structure TokenStream where
  /-- The text from where no token was read. -/
  window : Window
  /-- The tokens that were read and not taken. -/
  queue : List Token := []
  /-- The number of tokens that were taken. -/
  taken : Nat := 0
  /-- The first token was read. -/
  started : Bool := false
  /-- The column of the innermost collection told by indentation, or -1. -/
  indent : Int := -1
  /-- The columns of the collections around it. -/
  outer : List Int := []
  /-- Where a key may have begun, the innermost brackets first. -/
  keys : List KeyPlace := []
  /-- A key may begin here. -/
  keyAllowed : Bool := false
deriving Inhabited

/-- The tokens of a text before any is read. -/
def TokenStream.ofText (text : String) : TokenStream := { window := .ofText text }

/-- The place is inside brackets. -/
def TokenStream.inFlow (t : TokenStream) : Bool := reaches 2 t.keys

/-- Reads tokens, or refuses the text. -/
abbrev Fetch := StateT TokenStream Option

namespace Fetch

/-- Reads the text behind the last token. -/
def scan {α : Type} (s : Scan α) : Fetch α := fun t =>
  (s t.window).map fun (a, window) => (a, { t with window })

/-- Adds a token behind all others. -/
def push (k : Token) : Fetch Unit := modify fun t => { t with queue := t.queue ++ [k] }

/-- Puts a token in front of the one with a number, or behind all others if that one was taken already. -/
def insert (number : Nat) (k : Token) : Fetch Unit := do
  let t ← get
  if number < t.taken then push k
  else
    let i := number - t.taken
    set { t with queue := t.queue.take i ++ k :: t.queue.drop i }

/-- Tells whether a key may begin behind the next token. -/
def allowKey (b : Bool) : Fetch Unit := modify fun t => { t with keyAllowed := b }

/-! ### Indentation -/

/-- How deep collections may be nested. -/
def maxNesting : Nat := 10000

/-- Begins a collection at a column, unless one is there; its token comes in front of the token with a
number, or behind all others. -/
def openBlock (column : Nat) (number : Option Nat) (k : Token) : Fetch Unit := do
  let t ← get
  if !t.inFlow && t.indent < column then
    if maxNesting ≤ t.outer.length then failure
    set { t with indent := column, outer := t.indent :: t.outer }
    match number with
    | some n => insert n k
    | none => push k

/-- The collections that end before a column: their number, and what is left. -/
def closed (column : Int) : Int → List Int → Nat × Int × List Int
  | indent, [] => (0, indent, [])
  | indent, i :: outer =>
      if column < indent then
        let (n, indent, outer) := closed column i outer
        (n + 1, indent, outer)
      else (0, indent, i :: outer)

/-- Ends the collections that are indented further than a column. -/
def closeBlocks (column : Int) : Fetch Unit := modify fun t =>
  if t.inFlow then t
  else
    let (n, indent, outer) := closed column t.indent t.outer
    { t with indent, outer, queue := t.queue ++ List.replicate n .blockEnd }

/-! ### Keys -/

/-- How far the colon may be from the beginning of its key. -/
def keyReach : Nat := 1024

/-- The colon of the key comes too late. -/
def isStale (w : Window) (k : KeyPlace) : Bool := k.line < w.line || k.index + keyReach < w.index

/-- Gives up a key at the innermost level. -/
def dropKey : Fetch Unit := do
  let t ← get
  match t.keys with
  | k :: rest =>
      if k.possible && k.required then failure
      set { t with keys := { k with possible := false } :: rest }
  | [] => return

/-- Remembers that a key may begin here. -/
def saveKey : Fetch Unit := do
  if (← get).keyAllowed then
    dropKey
    let t ← get
    let w := t.window
    let k : KeyPlace :=
      { possible := true, required := !t.inFlow && t.indent == w.column
        number := t.taken + t.queue.length, index := w.index, line := w.line, column := w.column }
    set { t with keys := k :: t.keys.drop 1 }

/-- The key that may have begun at the innermost level, unless it is stale. -/
def currentKey? : Fetch (Option KeyPlace) := do
  let t ← get
  match t.keys with
  | k :: rest =>
      if !k.possible then return none
      else if isStale t.window k then
        if k.required then failure
        set { t with keys := { k with possible := false } :: rest }
        return none
      else return some k
  | [] => return none

/-! ### Single tokens -/

/-- A token of one character. -/
def mark (k : Token) : Fetch Unit := do
  scan Scan.pass
  push k

/-- The beginning of the text. -/
def start : Fetch Unit := do
  modify fun t => { t with started := true, keys := [{}], keyAllowed := true }
  push .streamStart

/-- Ends all collections and keys. -/
def reset : Fetch Unit := do
  closeBlocks (-1)
  dropKey
  allowKey false

/-- The end of the text, which ends the last line. -/
def finish : Fetch Unit := do
  modify fun t =>
    if t.window.column = 0 then t
    else { t with window := { t.window with line := t.window.line + 1, column := 0 } }
  reset
  push .streamEnd

/-- A directive. -/
def directive : Fetch Unit := do
  reset
  push (.directive (← scan Scan.directive))

/-- Three hyphens or points between documents. -/
def marker (k : Token) : Fetch Unit := do
  reset
  scan (Scan.passMany 3)
  push k

/-- An opening bracket. -/
def openFlow (k : Token) : Fetch Unit := do
  saveKey
  let t ← get
  if maxNesting < t.keys.length then failure
  set { t with keys := { number := t.taken + t.queue.length } :: t.keys, keyAllowed := true }
  mark k

/-- Leaves the innermost brackets. If nothing inside could be a key, the opening bracket is no longer kept
for its colon. -/
def leaveFlow : List KeyPlace → List KeyPlace
  | inner :: outer :: rest =>
      { outer with watched := outer.watched && outer.number != inner.number } :: rest
  | keys => keys

/-- A closing bracket. -/
def closeFlow (k : Token) : Fetch Unit := do
  dropKey
  modify fun t => { t with keys := leaveFlow t.keys, keyAllowed := false }
  mark k

/-- A comma between items. -/
def flowEntry : Fetch Unit := do
  dropKey
  allowKey true
  mark .flowEntry

/-- A dash before an item. -/
def blockEntry : Fetch Unit := do
  let t ← get
  if !t.inFlow then
    if !t.keyAllowed then failure
    openBlock t.window.column none .blockSequence
  dropKey
  allowKey true
  mark .blockEntry

/-- A question mark before a key. -/
def keyMark : Fetch Unit := do
  let t ← get
  if !t.inFlow then
    if !t.keyAllowed then failure
    openBlock t.window.column none .blockMapping
  dropKey
  allowKey (!t.inFlow)
  mark .key

/-- A colon before a value. -/
def valueMark : Fetch Unit := do
  match ← currentKey? with
  | some k =>
      insert k.number .key
      openBlock k.column (some k.number) .blockMapping
      modify fun t => { t with keys := { k with possible := false } :: t.keys.drop 1, keyAllowed := false }
  | none =>
      let t ← get
      if !t.inFlow then
        if !t.keyAllowed then failure
        openBlock t.window.column none .blockMapping
      allowKey (!t.inFlow)
  mark .value

/-- A token that may be a key; no key may follow it. -/
def mayBeKey (s : Scan Token) : Fetch Unit := do
  saveKey
  allowKey false
  push (← scan s)

/-- A scalar in lines of its own. -/
def blockScalar (literal : Bool) : Fetch Unit := do
  dropKey
  allowKey true
  let text ← scan (Scan.block literal (← get).indent)
  push (.scalar text true)

/-- A plain scalar. A line that ends behind it may be followed by a key. -/
def plainScalar : Fetch Unit := do
  saveKey
  allowKey false
  let t ← get
  let (text, broken) ← scan (Scan.plain t.inFlow (t.indent + 1))
  if broken then allowKey true
  push (.scalar text false)

/-! ### The next token -/

/-- A character that cannot begin a plain scalar. -/
def isIndicator (c : Char) : Bool :=
  Scan.isFlowMark c || "-?:#&*!|>'\"%@\x60".toList.contains c

/-- A plain scalar may begin here. -/
def startsPlain (inFlow : Bool) (c next : Char) : Bool :=
  !(endsWord c || isIndicator c) || (c == '-' && !isBlank next) ||
    (!inFlow && (c == '?' || c == ':') && !endsWord next)

/-- Reads the token that begins with a character. -/
def content (c next : Char) : Fetch Unit := do
  let inFlow := (← get).inFlow
  if c == '[' then openFlow .flowSequence
  else if c == '\x7b' then openFlow .flowMapping
  else if c == ']' then closeFlow .flowSequenceEnd
  else if c == '\x7d' then closeFlow .flowMappingEnd
  else if c == ',' then flowEntry
  else if c == '-' && endsWord next then blockEntry
  else if c == '?' && (inFlow || endsWord next) then keyMark
  else if c == ':' && (inFlow || endsWord next) then valueMark
  else if c == '*' then mayBeKey (Token.alias <$> Scan.anchorName)
  else if c == '&' then mayBeKey (Token.anchor <$> Scan.anchorName)
  else if c == '!' then mayBeKey (Token.tag <$> Scan.tag)
  else if c == '|' && !inFlow then blockScalar true
  else if c == '>' && !inFlow then blockScalar false
  else if c == '\'' || c == '"' then mayBeKey ((Token.scalar · true) <$> Scan.quoted c)
  else if startsPlain inFlow c next then plainScalar
  else failure

/-- Reads the next token and a comment behind it. A comment behind a dash belongs to what follows. -/
def next : Fetch Unit := do
  scan (Scan.need 1)
  if !(← get).started then start
  else
    let t ← get
    allowKey (← scan (Scan.passGap t.inFlow t.keyAllowed))
    closeBlocks (← get).window.column
    scan (Scan.need 4)
    let w := (← get).window
    let c := w.ready.headD nul
    if c == nul then finish
    else if w.column == 0 && c == '%' then directive
    else if ← scan Scan.atMarker then marker (if c == '-' then .documentStart else .documentEnd)
    else
      content c (w.ready.getD 1 nul)
      if (← get).queue.getLast? != some .blockEntry then scan Scan.passLineComment

/-- The next token is kept for this place. -/
def isAhead (taken : Nat) (k : KeyPlace) : Bool := k.possible && k.watched && k.number == taken

/-- A key may begin with the next token. A key whose colon comes too late is none any more. -/
def keyAhead : Fetch Bool := do
  let t ← get
  match t.keys.find? (isAhead t.taken) with
  | none => return false
  | some k =>
      if !isStale t.window k then return true
      else if k.required then failure
      else return false

/-- Reads tokens until two are known behind the next one and no key may begin with it. -/
def fill : Nat → Fetch Unit
  | 0 => failure
  | n + 1 => do
      let enough ←
        if reaches 3 (← get).queue then do
          let ahead ← keyAhead
          pure !ahead
        else pure false
      if !enough then
        next
        fill n

end Fetch

namespace TokenStream

/-- The next token. -/
def peek : Fetch Token := do
  Fetch.fill ((← get).window.size + 8)
  return (← get).queue.headD .streamEnd

/-- Takes the next token. -/
def skip : Fetch Unit := modify fun t => { t with queue := t.queue.drop 1, taken := t.taken + 1 }

end TokenStream

end Yaml

end StackDepth
