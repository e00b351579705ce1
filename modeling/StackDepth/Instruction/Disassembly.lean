import StackDepth.Instruction.Basic
import StackDepth.Text.Hex
import StackDepth.Text.Pad
import StackDepth.Text.Split

/-!
# Instructions as text

The text of an instruction is its mnemonic and its operands. Distances are written in bytes after a
dot and always with a sign (`.+4`), absolute targets as byte addresses, and immediates, ports and data
addresses in base sixteen. A register that is no pointer base shows as a question mark where a pointer
is expected.
-/

namespace StackDepth

namespace Instruction

/-- A register. -/
def registerText (r : Nat) : String := "r" ++ Text.decimal r

/-- The name of a pointer by its low register. -/
def pointerName (r : Nat) : String :=
  if r = regX then "X" else if r = regY then "Y" else if r = regZ then "Z" else "?"

/-- A pointer with the sign of its pre-decrement or post-increment. -/
def pointerText (op : Opcode) (r : Nat) : String :=
  match op with
  | .LDPD | .STPD => "-" ++ pointerName r
  | .LDPI | .STPI => pointerName r ++ "+"
  | _ => pointerName r

/-- A distance of `k` words, in bytes. The sign is that of `k`; the number of bytes wraps around. -/
def distanceText (k : Int) : String :=
  "." ++ (if 0 ≤ k then "+" else "") ++ Text.decimal (wrap64 (2 * k))

/-- The low byte of a constant. -/
def byteText (k : Int) : String := "0x" ++ Text.hex2 (BitVec.ofInt 8 k).toNat

/-- An address, or the low sixteen bits of a constant. -/
def wordText (a : BitVec 16) : String := "0x" ++ Text.hex4 a.toNat

/-- The operands, without the blank that separates them from the mnemonic. -/
def operandsText (i : Instruction) : List String :=
  match i.op.form with
  | .bare => []
  | .twoRegisters | .pairs => [registerText i.rd, registerText i.rr]
  | .oneRegister => [registerText i.rd]
  | .immediate | .wordImmediate => [registerText i.rd, byteText i.k]
  | .relative => [distanceText i.k]
  | .absolute => [wordText (absoluteTarget i.k)]
  | .flagRelative => [Text.decimal i.bit, distanceText i.k]
  | .portIn => [registerText i.rd, byteText i.k]
  | .portOut => [byteText i.k, registerText i.rr]
  | .portBit => [byteText i.k, Text.decimal i.bit]
  | .registerBit => [registerText i.rr, Text.decimal i.bit]
  | .flag => [Text.decimal i.bit]
  | .load => [registerText i.rd, pointerText i.op i.rr]
  | .loadOffset => [registerText i.rd, pointerName i.rr ++ "+" ++ Text.decimal i.k]
  | .store => [pointerText i.op i.rd, registerText i.rr]
  | .storeOffset => [pointerName i.rd ++ "+" ++ Text.decimal i.k, registerText i.rr]
  | .loadDirect => [registerText i.rd, wordText (BitVec.ofInt 16 i.k)]
  | .storeDirect => [wordText (BitVec.ofInt 16 i.k), registerText i.rr]
  | .throughZ =>
      [registerText i.rd,
        match i.op with
        | .LPMPI | .ELPMPI => "Z+"
        | _ => "Z"]

/-- The text of an instruction. -/
def disassemble (i : Instruction) : String :=
  match i.operandsText with
  | [] => i.op.mnemonic
  | operands => i.op.mnemonic ++ " " ++ Text.joinWith ", " operands

end Instruction

/-- The text of a cell; a number outside the catalogue has none. -/
def Cell.disassemble? : Cell → Option String
  | .instr i => some i.disassemble
  | .reserved _ => none

/-- The texts of a sequence of cells joined by colons. -/
def disassembleSequence? (cells : List Cell) : Option String :=
  (cells.mapM Cell.disassemble?).map (Text.joinWith " : ")

/-- The size of a cell; a number outside the catalogue has none. -/
def Cell.size? : Cell → Option Nat
  | .instr i => some i.size
  | .reserved _ => none

/-- The total size of a sequence of cells. -/
def cellSequenceSize? (cells : List Cell) : Option Nat := (cells.mapM Cell.size?).map fun sizes => sizes.foldr (· + ·) 0

end StackDepth
