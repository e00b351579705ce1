import StackDepth.Yaml.Node
import StackDepth.Yaml.Token

/-!
# Reading YAML

A node is read from tokens: a scalar, a collection told by indentation, a collection in brackets, or the
repetition of a node that has a name. A name stands for the last node before it that was given the name.
Only the first document of a text is read, up to the token behind it.
-/

namespace StackDepth

namespace Yaml

/-- What a name stands for. -/
inductive Anchored where
  /-- A node that is complete. -/
  | complete (n : Node)
  /-- The node that began with the token of a number, and is being read. -/
  | unfinished (number : Nat)
deriving Inhabited

/-- A document that is being read. -/
structure Reading where
  /-- The tokens. -/
  tokens : TokenStream
  /-- The names of nodes, the latest first. -/
  anchors : List (String × Anchored) := []
  /-- What the handles of tags stand for. -/
  handles : List (String × String) := []
deriving Inhabited

/-- Reads nodes, or refuses the text. -/
abbrev Parse := StateT Reading Option

namespace Parse

/-- Reads tokens. -/
def fetch {α : Type} (f : Fetch α) : Parse α := fun r =>
  (f r.tokens).map fun (a, tokens) => (a, { r with tokens })

/-- The next token. -/
def peek : Parse Token := fetch TokenStream.peek

/-- Takes the next token. -/
def skip : Parse Unit := fetch TokenStream.skip

/-- Takes the next token and gives the one behind it. -/
def advance : Parse Token := do
  skip
  peek

/-! ### Names and tags -/

/-- What stands before a node. -/
structure Properties where
  /-- The name of the node. -/
  anchor : Option String := none
  /-- The tag of the node. -/
  tag : Option String := none
  /-- There is a name or a tag, which makes up for content. -/
  present : Bool := false
deriving Inhabited

/-- How the tags of the format itself begin. -/
def formatTag : String := "tag:yaml.org,2002:"

/-- The short form of a tag, in which the tags of the format begin with two exclamation marks. -/
def shortTag (tag : String) : String :=
  if formatTag.toList.isPrefixOf tag.toList then
    "!!" ++ String.ofList (tag.toList.drop formatTag.length)
  else tag

/-- What a tag stands for; nothing if it is a lone exclamation mark. -/
def resolveTag (t : Tag) : Parse (Option String) := do
  let full ←
    if t.handle.isEmpty then pure t.suffix
    else
      match (← get).handles.lookup t.handle with
      | some stands => pure (stands ++ t.suffix)
      | none => failure
  if full.isEmpty then failure
  return if full == "!" then none else some (shortTag full)

/-- Reads a name and a tag, in either order. -/
def properties : Parse Properties := do
  match ← peek with
  | .anchor name =>
      match ← advance with
      | .tag t =>
          skip
          return { anchor := some name, tag := ← resolveTag t, present := true }
      | _ => return { anchor := some name, present := true }
  | .tag t =>
      match ← advance with
      | .anchor name =>
          skip
          return { anchor := some name, tag := ← resolveTag t, present := true }
      | _ => return { tag := ← resolveTag t, present := true }
  | _ => return {}

/-- Gives a node its name. -/
def register (p : Properties) (a : Anchored) : Parse Unit :=
  match p.anchor with
  | some name => modify fun r => { r with anchors := (name, a) :: r.anchors }
  | none => return

/-- A scalar with its name. -/
def named (p : Properties) (text : String) (quoted : Bool) : Parse Node := do
  let n : Node := .scalar { text, quoted, tag := p.tag }
  register p (.complete n)
  return n

/-- A node without content, which must have a name or a tag. -/
def empty (p : Properties) : Parse Node := if p.present then named p "" false else failure

/-- Reads a collection with its name, which stands for the collection from its beginning on. -/
def collection (p : Properties) (read : Parse Node) : Parse Node := do
  let number := (← get).tokens.taken
  register p (.unfinished number)
  let n ← read
  modify fun r =>
    { r with
      anchors := r.anchors.map fun (name, a) =>
        match a with
        | .unfinished k => (name, if k = number then .complete n else a)
        | .complete _ => (name, a) }
  return n

/-- The node that is repeated by a name. -/
def repeated (name : String) : Parse Node := do
  match (← get).anchors.lookup name with
  | some (.complete n) => return .alias name (some n)
  | some (.unfinished _) => return .alias name none
  | none => failure

/-! ### Nodes -/

mutual

/-- Reads a node. A collection told by indentation is read only if `block` holds, and the dashes of a
sequence may stand at the column of its key only if `indentless` holds. -/
def node : Nat → Bool → Bool → Parse Node
  | 0, _, _ => failure
  | fuel + 1, block, indentless => do
      match ← peek with
      | .alias name =>
          skip
          repeated name
      | _ =>
          let p ← properties
          match ← peek with
          | .scalar text quoted =>
              skip
              named p text quoted
          | .flowSequence =>
              collection p do
                skip
                return .sequence (← flowItems fuel true)
          | .flowMapping =>
              collection p do
                skip
                return .mapping (← flowEntries fuel true)
          | .blockEntry =>
              if indentless then collection p do return .sequence (← indentlessItems fuel)
              else empty p
          | .blockSequence =>
              if block then
                collection p do
                  skip
                  return .sequence (← blockItems fuel)
              else empty p
          | .blockMapping =>
              if block then
                collection p do
                  skip
                  return .mapping (← blockEntries fuel)
              else empty p
          | _ => empty p

/-- Reads a node, unless one of some tokens comes next, which leaves it out. -/
def nodeUnless : Nat → Bool → Bool → (Token → Bool) → Parse Node
  | 0, _, _, _ => failure
  | fuel + 1, block, indentless, stops => do
      if stops (← peek) then return .missing else node fuel block indentless

/-- Reads items up to the end of their sequence. -/
def blockItems : Nat → Parse (List Node)
  | 0 => failure
  | fuel + 1 => do
      match ← peek with
      | .blockEntry =>
          skip
          let n ← nodeUnless fuel true false fun k => k == .blockEntry || k == .blockEnd
          return n :: (← blockItems fuel)
      | .blockEnd =>
          skip
          return []
      | _ => failure

/-- Reads items whose dashes stand at the column of their key. -/
def indentlessItems : Nat → Parse (List Node)
  | 0 => failure
  | fuel + 1 => do
      match ← peek with
      | .blockEntry =>
          skip
          let n ← nodeUnless fuel true false fun k =>
            k == .blockEntry || k == .key || k == .value || k == .blockEnd
          return n :: (← indentlessItems fuel)
      | _ => return []

/-- Reads pairs up to the end of their mapping. -/
def blockEntries : Nat → Parse (List (Node × Node))
  | 0 => failure
  | fuel + 1 => do
      let stops (k : Token) : Bool := k == .key || k == .value || k == .blockEnd
      match ← peek with
      | .key =>
          skip
          let k ← nodeUnless fuel true true stops
          let v ←
            match ← peek with
            | .value => do
                skip
                nodeUnless fuel true true stops
            | _ => pure .missing
          return (k, v) :: (← blockEntries fuel)
      | .blockEnd =>
          skip
          return []
      | _ => failure

/-- Reads items up to the closing bracket. An item may be a single pair, which stands for a mapping; if its
key is left out, the token behind the question mark is taken with it. -/
def flowItems : Nat → Bool → Parse (List Node)
  | 0, _ => failure
  | fuel + 1, first => do
      let stops (k : Token) : Bool := k == .flowEntry || k == .flowSequenceEnd
      let k ← peek
      let k ←
        if k == .flowSequenceEnd || first then pure k
        else if k == .flowEntry then advance
        else failure
      if k == .flowSequenceEnd then
        skip
        return []
      else if k == .key then
        let k ← advance
        let key ←
          if k == .value || stops k then do
            skip
            pure .missing
          else node fuel false false
        let value ←
          if (← peek) == .value then do
            skip
            nodeUnless fuel false false stops
          else pure .missing
        return .mapping [(key, value)] :: (← flowItems fuel false)
      else
        let n ← node fuel false false
        return n :: (← flowItems fuel false)

/-- Reads pairs up to the closing brace. A node without a question mark or a colon is a key without a
value. -/
def flowEntries : Nat → Bool → Parse (List (Node × Node))
  | 0, _ => failure
  | fuel + 1, first => do
      let stops (k : Token) : Bool := k == .flowEntry || k == .flowMappingEnd
      let k ← peek
      let k ←
        if k == .flowMappingEnd || first then pure k
        else if k == .flowEntry then advance
        else failure
      if k == .flowMappingEnd then
        skip
        return []
      else if k == .key then
        skip
        let key ← nodeUnless fuel false false fun k => k == .value || stops k
        let value ←
          if (← peek) == .value then do
            skip
            nodeUnless fuel false false stops
          else pure .missing
        return (key, value) :: (← flowEntries fuel false)
      else
        let n ← node fuel false false
        let _ ← peek
        return (n, .missing) :: (← flowEntries fuel false)

end

/-! ### Documents -/

/-- The handles that every document has. -/
def commonHandles : List (String × String) := [("!", "!"), ("!!", formatTag)]

/-- Reads directives. Only one version is known, and no directive may be given twice. -/
def directives : Nat → Bool → Parse Unit
  | 0, _ => failure
  | fuel + 1, versionKnown => do
      match ← peek with
      | .directive (.version major minor) =>
          if versionKnown || major != 1 || minor != 1 then failure
          skip
          directives fuel true
      | .directive (.handle name stands) =>
          if ((← get).handles.lookup name).isSome then failure
          modify fun r => { r with handles := r.handles ++ [(name, stands)] }
          skip
          directives fuel versionKnown
      | _ => modify fun r => { r with handles := r.handles ++ commonHandles }

/-- A document cannot have content here. -/
def endsContent : Token → Bool
  | .directive _ | .documentStart | .documentEnd | .streamEnd => true
  | _ => false

/-- Reads the first document. A text without any document reads as a node that is left out. -/
def document (fuel : Nat) : Parse Node := do
  let _ ← peek
  skip
  match ← peek with
  | .streamEnd => return .missing
  | k =>
      directives fuel false
      let isDirective :=
        match k with
        | .directive _ => true
        | _ => false
      let n ←
        if isDirective || k == .documentStart then do
          if (← peek) != .documentStart then failure
          if endsContent (← advance) then pure .missing else node fuel true false
        else node fuel true false
      let _ ← peek
      return n

end Parse

/-- Reads the first document of a text. -/
def parse? (text : String) : Option Node :=
  (Parse.document (8 * text.length + 40) { tokens := .ofText text }).map Prod.fst

end Yaml

end StackDepth
