import StackDepth.Assembly.Encode
import StackDepth.Assembly.Line

/-!
# The assembler

A text is assembled in two passes over its lines. The first one keeps a location counter, defines the
labels and picks the opcodes; `.org` moves the counter. The second one, which knows every label, checks
the operands and places the instructions. The first error in either pass is the answer.
-/

namespace StackDepth

namespace Assembly

/-- What is wrong with a line. -/
inductive Problem where
  /-- A label stands behind the flash. -/
  | labelPastEnd (name : String)
  /-- A label is defined twice. -/
  | duplicateLabel (name : String)
  /-- There is no such directive. -/
  | unknownDirective (name : String)
  /-- The argument of `.org` is no number. -/
  | originNumber (error : Numeral.Error)
  /-- The argument of `.org` is no even address. -/
  | originAddress (text : String)
  /-- No opcode fits. -/
  | opcode (error : OpcodeError)
  /-- The program is too long. -/
  | tooLong
  /-- An operand is wrong. -/
  | operand (op : Opcode) (error : OperandError)
  /-- The instruction cannot be placed. -/
  | place (error : PlaceError)
deriving DecidableEq, Inhabited

/-- The text of a problem. -/
def Problem.message : Problem → String
  | .labelPastEnd name => "label " ++ Text.quoted name ++ " past the end of flash"
  | .duplicateLabel name => "duplicate label " ++ Text.quoted name
  | .unknownDirective name => "unknown directive " ++ name
  | .originNumber error => ".org: " ++ error.message
  | .originAddress text => ".org " ++ text ++ ": not an even flash address"
  | .opcode error => error.message
  | .tooLong => "program exceeds 64K"
  | .operand op error => op.mnemonic ++ ": " ++ error.message
  | .place error => error.message

/-- A problem with the number of its line. -/
structure Error where
  /-- The number of the line, from 1. -/
  line : Nat
  /-- What is wrong with it. -/
  problem : Problem
deriving DecidableEq, Inhabited

/-- The text of an error. -/
def Error.message (e : Error) : String :=
  "line " ++ Text.decimal e.line ++ ": " ++ e.problem.message

/-- An instruction between the two passes. -/
structure Pending where
  /-- The number of its line. -/
  line : Nat
  /-- Its address. -/
  pc : Address
  /-- Its opcode. -/
  op : Opcode
  /-- Its operands. -/
  operands : List String
deriving DecidableEq, Inhabited

/-- The outcome of the first pass so far. -/
structure Layout where
  /-- The labels defined so far. -/
  labels : Labels := []
  /-- The location counter, a byte address or the size of the flash. -/
  counter : Nat := 0
  /-- The instructions so far, last first. -/
  pending : List Pending := []
deriving DecidableEq, Inhabited

namespace Layout

/-- Defines a label at the location counter. -/
def define (l : Layout) (name : String) : Except Problem Layout :=
  if flashSize ≤ l.counter then .error (.labelPastEnd name)
  else if (l.labels.lookup name).isSome then .error (.duplicateLabel name)
  else .ok { l with labels := (name, BitVec.ofNat 16 l.counter) :: l.labels }

/-- Moves the location counter. -/
def origin (l : Layout) (text : String) : Except Problem Layout :=
  match Numeral.parse text with
  | .error e => .error (.originNumber e)
  | .ok v =>
      if 0 ≤ v ∧ v < flashSize ∧ v % 2 = 0 then .ok { l with counter := v.toNat }
      else .error (.originAddress text)

/-- Lays out the statement of line `n`. -/
def addStatement (l : Layout) (n : Nat) : Statement → Except Problem Layout
  | .nothing => .ok l
  | .directive name rest =>
      if sameLetters name ".org" then l.origin rest else .error (.unknownDirective name)
  | .instruction mnemonic operands =>
      match selectOpcode mnemonic operands with
      | .error e => .error (.opcode e)
      | .ok op =>
          if flashSize < l.counter + op.size then .error .tooLong
          else
            .ok { l with
              counter := l.counter + op.size
              pending := ⟨n, BitVec.ofNat 16 l.counter, op, operands⟩ :: l.pending }

/-- Lays out line `n`: its labels, then its statement. -/
def addLine (l : Layout) (n : Nat) (line : Line) : Except Problem Layout := do
  let l ← line.labels.foldlM define l
  l.addStatement n line.statement

/-- Lays out lines, the first of which has number `n`. -/
def addLines (l : Layout) (n : Nat) : List Line → Except Error Layout
  | [] => .ok l
  | line :: rest =>
      match l.addLine n line with
      | .error problem => .error ⟨n, problem⟩
      | .ok l => l.addLines (n + 1) rest

end Layout

/-- Encodes an instruction and places it. -/
def placePending (labels : Labels) (f : Flash) (p : Pending) : Except Error Flash :=
  match encode labels p.pc p.op p.operands with
  | .error e => .error ⟨p.line, .operand p.op e⟩
  | .ok i =>
      match f.place p.pc i with
      | .error e => .error ⟨p.line, .place e⟩
      | .ok f => .ok f

/-- The lines of a text. -/
def readLines (text : String) : List Line := (Text.lines text).map Line.ofText

/-- Assembles a text. -/
def assemble (text : String) : Except Error Program := do
  let layout ← ({} : Layout).addLines 1 (readLines text)
  let flash ← layout.pending.reverse.foldlM (placePending layout.labels) .empty
  .ok { flash, labels := layout.labels }

end Assembly

end StackDepth
