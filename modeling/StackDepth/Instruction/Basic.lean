import StackDepth.Instruction.Catalog

/-!
# Instructions

An instruction is an opcode with its operands. What an operand field means depends on the form of the
opcode; fields that the form does not use are zero in instructions that come from the assembler.

A `Cell` is what a stream of instructions holds at an address. Besides an instruction it may be a
number that the catalogue does not know; executing such a cell fails.
-/

namespace StackDepth

/-- A byte address in flash. -/
abbrev Address := BitVec 16

/-- An instruction with its operands. -/
structure Instruction where
  /-- The opcode. -/
  op : Opcode
  /-- The destination register, or the pointer of a store. -/
  rd : Nat := 0
  /-- The source register, or the pointer of a load. -/
  rr : Nat := 0
  /-- The constant: an immediate, a port, an address, a displacement or a distance in words. It is a
  signed number of 64 bits. -/
  k : Int := 0
  /-- The bit number. -/
  bit : Nat := 0
deriving DecidableEq, Inhabited

/-- What stands at an address of an instruction stream. -/
inductive Cell where
  /-- An instruction of the catalogue. -/
  | instr (i : Instruction)
  /-- A number that is not the number of an opcode. -/
  | reserved (code : Nat)
deriving DecidableEq, Inhabited

/-- The cell with an opcode number and operands. -/
def Cell.ofFields (code rd rr : Nat) (k : Int) (bit : Nat) : Cell :=
  match Opcode.ofCode? code with
  | some op => .instr { op, rd, rr, k, bit }
  | none => .reserved code

/-- The number a signed word of 64 bits holds after its arithmetic wrapped around. -/
def wrap64 (n : Int) : Int := n.bmod 0x10000000000000000

namespace Instruction

/-- The size in bytes. -/
def size (i : Instruction) : Nat := i.op.size

/-- The status bit that a conditional branch tests, and the value on which it is taken. -/
def branchTest? (i : Instruction) : Option (Nat × Bool) :=
  match i.op with
  | .BRBS => some (i.bit, true)
  | .BRBC => some (i.bit, false)
  | op => op.flagTest?

end Instruction

/-- The total size of a sequence in bytes. -/
def sequenceSize (is : List Instruction) : Nat := is.foldr (fun i n => i.size + n) 0

/-! ### Register numbers of the pointers -/

/-- The low register of `X`. -/
abbrev regX : Nat := 26

/-- The low register of `Y`. -/
abbrev regY : Nat := 28

/-- The low register of `Z`. -/
abbrev regZ : Nat := 30

/-! ### Targets -/

/-- The byte address that a relative transfer of `k` words at `pc` reaches, modulo the flash. -/
def relativeTarget (pc : Address) (k : Int) : Address :=
  BitVec.ofInt 16 (pc.toNat + 2 + 2 * k)

/-- The byte address of the word address `k`, modulo the flash. -/
def absoluteTarget (k : Int) : Address := BitVec.ofInt 16 (2 * k)

end StackDepth
