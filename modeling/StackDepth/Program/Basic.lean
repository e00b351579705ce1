import StackDepth.Numeral
import StackDepth.Program.Flash

/-!
# Programs

A program is a flash image with symbolic labels and with annotations that list the possible targets of
indirect calls and jumps. An address may be given by a label or by a number.
-/

namespace StackDepth

/-- Names of addresses, the latest definition of a name first. -/
abbrev Labels := List (String × Address)

/-- A flash image with labels and annotations. -/
structure Program where
  /-- The instructions. -/
  flash : Flash := .empty
  /-- The labels; every name occurs once. -/
  labels : Labels := []
  /-- The possible targets of indirect transfers; every site occurs once. -/
  indirect : List (Address × List Address) := []
deriving DecidableEq, Inhabited

/-- Why a text is no address. -/
inductive ResolveError where
  /-- The text is neither a label nor a number. -/
  | unknownLabel (text : String)
  /-- The number lies outside the flash. -/
  | outOfRange (text : String)
deriving DecidableEq, Inhabited

/-- The text of an error. -/
def ResolveError.message : ResolveError → String
  | .unknownLabel text => "unknown label: " ++ Text.quoted text
  | .outOfRange text => "address " ++ text ++ " out of range"

/-- The list in increasing order, equal neighbours taken together. -/
def sortedAddresses (as : List Address) : List Address :=
  (as.mergeSort fun a b => a.toNat ≤ b.toNat).eraseDups

namespace Program

/-- No instruction, label or annotation. -/
def empty : Program := {}

/-- The program of instructions that follow each other from address 0. -/
def ofInstructions (is : List Instruction) : Program := { flash := .ofInstructions is }

/-- The program of cells that follow each other, if the catalogue knows all of them. -/
def ofCells? (cells : List Cell) : Option Program :=
  (cells.mapM fun c =>
    match c with
    | Cell.instr i => some i
    | Cell.reserved _ => none).map ofInstructions

/-- Defines or redefines a label. -/
def setLabel (p : Program) (name : String) (a : Address) : Program :=
  { p with labels := (name, a) :: p.labels.filter (·.1 ≠ name) }

/-- The address of a label. -/
def label? (p : Program) (name : String) : Option Address := p.labels.lookup name

/-- All labels, sorted by name. -/
def sortedLabels (p : Program) : Labels := p.labels.mergeSort fun a b => a.1 ≤ b.1

/-- The names of the labels at an address, sorted. -/
def labelsAt (p : Program) (pc : Address) : List String :=
  (p.sortedLabels.filter (·.2 = pc)).map Prod.fst

/-- Records the possible targets of the indirect transfer at a site, in increasing order. -/
def setTargets (p : Program) (site : Address) (targets : List Address) : Program :=
  { p with indirect := (site, sortedAddresses targets) :: p.indirect.filter (·.1 ≠ site) }

/-- The recorded targets of the indirect transfer at a site; none if the site is not annotated. -/
def targets? (p : Program) (site : Address) : Option (List Address) := p.indirect.lookup site

/-- The address that a label or a number stands for. -/
def resolve (p : Program) (s : String) : Except ResolveError Address :=
  let text := Text.trim s
  match p.label? text with
  | some a => .ok a
  | none =>
      match Numeral.parse text with
      | .error _ => .error (.unknownLabel text)
      | .ok v =>
          if 0 ≤ v ∧ v < flashSize then .ok (BitVec.ofInt 16 v) else .error (.outOfRange text)

end Program

end StackDepth
