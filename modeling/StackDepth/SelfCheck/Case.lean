import StackDepth.Instruction.Disassembly
import StackDepth.State.Basic

/-!
# Cases of the self-check

A case applies an instruction to a state whose operand registers and status register hold given
values, all other registers being known zero. `cases` builds the cases of a list of opcodes over a list
of sample values: every form of operands has its own registers and constants.
-/

namespace StackDepth

namespace SelfCheck

/-- An instruction with the values of its operands. -/
structure Case where
  /-- The instruction. -/
  instr : Instruction
  /-- The value of the first operand register. -/
  a : Tribyte
  /-- The value of the second operand register, or of the high half of a pair. -/
  b : Tribyte
  /-- The status register. -/
  sreg : Tribyte
deriving DecidableEq, Inhabited

/-- The registers that hold the two operands; they coincide when there is only one. -/
def operandRegisters (i : Instruction) : Nat × Nat :=
  match i.op.form with
  | .wordImmediate => (i.rd, i.rd + 1)
  | .pairs => (i.rr, i.rr + 1)
  | .registerBit => (i.rr, i.rr)
  | .twoRegisters => (i.rd, i.rr)
  | _ => (i.rd, i.rd)

/-- The state the instruction is applied to. -/
def Case.state (c : Case) : State :=
  let (ra, rb) := operandRegisters c.instr
  let s := { State.reset with sreg := c.sreg }.setReg ra c.a
  if rb = ra then s else s.setReg rb c.b

/-! ### Samples -/

/-- Boundary constants and values with a few unknown bits in telling places. -/
def defaultSamples : List Tribyte := [
  .ofByte 0x00#8, .ofByte 0x01#8, .ofByte 0x0F#8, .ofByte 0x7F#8, .ofByte 0x80#8, .ofByte 0xFF#8,
  .make 0xFE#8 0x00#8, .make 0xF7#8 0x07#8, .make 0x7F#8 0x7F#8, .make 0xF0#8 0x80#8,
  .make 0x0F#8 0x0F#8, .make 0x66#8 0x24#8]

/-- The status registers of every case: none set, `C`, `Z` with `T`, `C` and `Z` unknown, and `T`
unknown with all others set. -/
def sregSamples : List Tribyte := [
  .zero, .ofByte 0x01#8, .ofByte 0x42#8, .make 0xFC#8 0x00#8, .make 0xBF#8 0xBF#8]

/-- The constants of instructions with an immediate byte. -/
def immediates : List Int := [0x00, 0x01, 0x0F, 0x7F, 0x80, 0xFF]

/-- The constants of instructions on pairs. -/
def wordConstants : List Int := [1, 31, 63]

/-- The bit numbers of instructions on a bit of a register. -/
def bitNumbers : List Nat := [0, 3, 7]

/-- One case for each status register. -/
def underStatus (i : Instruction) (a b : Tribyte) : List Case :=
  sregSamples.map fun sreg => { instr := i, a, b, sreg }

/-- The cases of one opcode. -/
def opcodeCases (op : Opcode) (samples : List Tribyte) : List Case :=
  match op.form with
  | .twoRegisters =>
      samples.flatMap fun a =>
        (samples.flatMap fun b => underStatus { op, rd := 16, rr := 17 } a b) ++
          underStatus { op, rd := 16, rr := 16 } a a
  | .immediate =>
      samples.flatMap fun a => immediates.flatMap fun k => underStatus { op, rd := 16, k } a a
  | .wordImmediate =>
      samples.flatMap fun lo => samples.flatMap fun hi =>
        wordConstants.flatMap fun k => underStatus { op, rd := 24, k } lo hi
  | .pairs =>
      samples.flatMap fun lo => samples.flatMap fun hi =>
        underStatus { op, rd := 16, rr := 18 } lo hi
  | .registerBit =>
      samples.flatMap fun a => bitNumbers.flatMap fun bit => underStatus { op, rr := 16, bit } a a
  | .flag => (List.range 8).flatMap fun bit => underStatus { op, bit } .zero .zero
  | _ => samples.flatMap fun a => underStatus { op, rd := 16 } a a

/-- The cases of a list of opcodes over a list of samples. -/
def cases (ops : List Opcode) (samples : List Tribyte) : List Case :=
  ops.flatMap fun op => opcodeCases op samples

end SelfCheck

end StackDepth
