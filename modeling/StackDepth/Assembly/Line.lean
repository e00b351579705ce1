import StackDepth.Text.Blank
import StackDepth.Text.Split

/-!
# Lines of assembly text

A line holds any number of label definitions, then at most one statement: a directive, whose name
starts with a dot, or an instruction with operands separated by commas. A comment runs from a semicolon
or from two slashes to the end of the line.
-/

namespace StackDepth

namespace Assembly

/-- What a line says after its labels. -/
inductive Statement where
  /-- Nothing. -/
  | nothing
  /-- A directive with the text behind its name. -/
  | directive (name rest : String)
  /-- An instruction with its operands. -/
  | instruction (mnemonic : String) (operands : List String)
deriving DecidableEq, Inhabited

/-- A line: the labels it defines and its statement. -/
structure Line where
  /-- The labels in order. -/
  labels : List String
  /-- The statement. -/
  statement : Statement
deriving DecidableEq, Inhabited

/-- The line without its comment. -/
def stripComment (cs : List Char) : List Char :=
  Text.beforeDouble '/' (cs.takeWhile (· ≠ ';'))

/-- A letter, an underscore or a dot. -/
def isNameStart (c : Char) : Bool :=
  c == '_' || c == '.' || ('a' ≤ c && c ≤ 'z') || ('A' ≤ c && c ≤ 'Z')

/-- A character that may stand behind the first one of a name. -/
def isNameChar (c : Char) : Bool := isNameStart c || ('0' ≤ c && c ≤ '9')

/-- The text may name a label. -/
def isName : List Char → Bool
  | [] => false
  | c :: cs => isNameStart c && cs.all isNameChar

/-- Takes the labels off a text. Every label is followed by a colon; `fuel` bounds their number. -/
def splitLabels : Nat → List Char → List String × List Char
  | 0, cs => ([], Text.trimList cs)
  | fuel + 1, cs =>
      let text := Text.trimList cs
      match Text.cutWith? (· == ':') text with
      | none => ([], text)
      | some (name, after) =>
          if isName name then
            let (names, rest) := splitLabels fuel after
            (String.ofList name :: names, rest)
          else ([], text)

/-- The operands of an instruction, without white space around them. -/
def splitOperands (cs : List Char) : List String :=
  if cs.isEmpty then []
  else (Text.splitOn ',' cs).map fun part => String.ofList (Text.trimList part)

/-- The statement of a text that has no white space at its ends. The first blank or tabulator ends the
mnemonic. -/
def Statement.ofText (cs : List Char) : Statement :=
  if cs.isEmpty then .nothing
  else
    let (head, rest) :=
      match Text.cutWith? (fun c => c == ' ' || c == '\t') cs with
      | some (head, rest) => (head, Text.trimList rest)
      | none => (cs, [])
    if head.head? = some '.' then .directive (String.ofList head) (String.ofList rest)
    else .instruction (String.ofList head) (splitOperands rest)

/-- Reads a line. -/
def Line.ofText (cs : List Char) : Line :=
  let text := stripComment cs
  let (labels, rest) := splitLabels (text.length + 1) text
  { labels, statement := .ofText rest }

end Assembly

end StackDepth
