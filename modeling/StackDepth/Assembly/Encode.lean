import StackDepth.Assembly.Operand

/-!
# From operands to instructions

`selectOpcode` picks the opcode of a mnemonic; for loads, stores and reads of program memory the
operands decide between the variants. Sizes do not depend on labels, so addresses can be laid out
before any label is known. `encode` then checks the operands of an opcode by its form and builds the
instruction; the first operand that is wrong decides the error.
-/

namespace StackDepth

namespace Assembly

/-- Why no opcode fits. -/
inductive OpcodeError where
  /-- The catalogue does not know the mnemonic. -/
  | unknownMnemonic (text : String)
  /-- A load or store needs two operands. -/
  | needsTwo (mnemonic : String)
  /-- A read of program memory takes no operand or two. -/
  | noneOrTwo (mnemonic : String)
  /-- A read of program memory goes through `Z` only. -/
  | throughZ (mnemonic operand : String)
  /-- The pointer is wrong. -/
  | pointer (error : OperandError)
deriving DecidableEq, Inhabited

/-- The text of an error. -/
def OpcodeError.message : OpcodeError → String
  | .unknownMnemonic text => "unknown mnemonic " ++ Text.quoted text
  | .needsTwo mnemonic => mnemonic ++ " needs 2 operands"
  | .noneOrTwo mnemonic => mnemonic ++ " takes 0 or 2 operands"
  | .throughZ mnemonic operand => mnemonic ++ " reads through Z, got " ++ Text.quoted operand
  | .pointer error => error.message

/-- The variant of a load for the use of its pointer. -/
def loadVariant : PointerMode → Opcode
  | .plain => .LD
  | .postIncrement => .LDPI
  | .preDecrement => .LDPD
  | .displaced _ => .LDD

/-- The variant of a store for the use of its pointer. -/
def storeVariant : PointerMode → Opcode
  | .plain => .ST
  | .postIncrement => .STPI
  | .preDecrement => .STPD
  | .displaced _ => .STD

/-- Equal up to the case of ASCII letters. -/
def sameLetters (a b : String) : Bool := a.toList.map Char.toLower == b.toList.map Char.toLower

/-- The variant of a load or store by its pointer operand. -/
def byPointer (variant : PointerMode → Opcode) (operand : String) : Except OpcodeError Opcode :=
  match pointer operand with
  | .ok p => .ok (variant p.mode)
  | .error e => .error (.pointer e)

/-- The variant of a read of program memory by its operands. -/
def readVariant (mnemonic : String) (operands : List String) (plain direct post : Opcode) :
    Except OpcodeError Opcode :=
  match operands with
  | [] => .ok plain
  | [_, z] =>
      if sameLetters z "Z+" then .ok post
      else if sameLetters z "Z" then .ok direct
      else .error (.throughZ mnemonic z)
  | _ => .error (.noneOrTwo mnemonic)

/-- The opcode of a mnemonic with operands. -/
def selectOpcode (mnemonic : String) (operands : List String) : Except OpcodeError Opcode :=
  match Opcode.lookup? mnemonic with
  | none => .error (.unknownMnemonic mnemonic)
  | some .LD | some .LDD =>
      match operands with
      | [_, p] => byPointer loadVariant p
      | _ => .error (.needsTwo mnemonic)
  | some .ST | some .STD =>
      match operands with
      | [p, _] => byPointer storeVariant p
      | _ => .error (.needsTwo mnemonic)
  | some .LPM => readVariant mnemonic operands .LPM .LPMD .LPMPI
  | some .ELPM => readVariant mnemonic operands .ELPM .ELPMD .ELPMPI
  | some op => .ok op

/-- The last register a multiplication may take, if it is restricted to upper registers. -/
def upperLimit? : Opcode → Option Nat
  | .MULS => some 31
  | .MULSU | .FMUL | .FMULS | .FMULSU => some 23
  | _ => none

/-- The largest distance in words of a relative transfer. -/
def distanceLimit : Opcode → Int
  | .RJMP | .RCALL => 2048
  | _ => 64

/-- Fails with `e` unless `p` holds. -/
def require (p : Bool) (e : OperandError) : Except OperandError Unit :=
  if p then .ok () else .error e

/-- The instruction of an opcode at `pc` with operands. -/
def encode (labels : Labels) (pc : Address) (op : Opcode) (operands : List String) :
    Except OperandError Instruction :=
  match op.form, operands with
  | .bare, [] => .ok { op }
  | .bare, os => .error (.count 0 os.length)
  | .twoRegisters, [a, b] => do
      let rd ← register a
      let rr ← register b
      match upperLimit? op with
      | none => .ok { op, rd, rr }
      | some last => do
          require (16 ≤ rd && rd ≤ last && 16 ≤ rr && rr ≤ last) (.upperRegisters last)
          .ok { op, rd, rr }
  | .pairs, [a, b] => do
      let rd ← register a
      let rr ← register b
      require (rd % 2 == 0 && rr % 2 == 0) .oddPair
      .ok { op, rd, rr }
  | .oneRegister, [a] => do
      let rd ← register a
      require (op ≠ .SER || 16 ≤ rd) .serRegister
      .ok { op, rd }
  | .oneRegister, os => .error (.count 1 os.length)
  | .immediate, [a, b] => do
      let rd ← register a
      require (16 ≤ rd) .immediateRegister
      let k ← constantIn labels b (-128) 255
      .ok { op, rd, k := k % 256 }
  | .wordImmediate, [a, b] => do
      let rd ← register a
      require (24 ≤ rd && rd % 2 == 0) .wordRegister
      let k ← constantIn labels b 0 63
      .ok { op, rd, k }
  | .relative, [a] => do
      let k ← relativeWords labels a pc (distanceLimit op)
      .ok { op, k }
  | .relative, os => .error (.count 1 os.length)
  | .absolute, [a] => do
      let k ← absoluteWord labels a
      .ok { op, k }
  | .absolute, os => .error (.count 1 os.length)
  | .flagRelative, [a, b] => do
      let bit ← bitNumber labels a
      let k ← relativeWords labels b pc 64
      .ok { op, k, bit }
  | .portIn, [a, b] => do
      let rd ← register a
      let k ← constantIn labels b 0 63
      .ok { op, rd, k }
  | .portOut, [a, b] => do
      let k ← constantIn labels a 0 63
      let rr ← register b
      .ok { op, rr, k }
  | .portBit, [a, b] => do
      let k ← constantIn labels a 0 31
      let bit ← bitNumber labels b
      .ok { op, k, bit }
  | .registerBit, [a, b] => do
      let rr ← register a
      let bit ← bitNumber labels b
      .ok { op, rr, bit }
  | .flag, [a] => do
      let bit ← bitNumber labels a
      .ok { op, bit }
  | .flag, os => .error (.count 1 os.length)
  | .load, [a, b] | .loadOffset, [a, b] => do
      let rd ← register a
      let p ← pointer b
      .ok { op, rd, rr := p.base, k := p.offset }
  | .store, [a, b] | .storeOffset, [a, b] => do
      let p ← pointer a
      let rr ← register b
      .ok { op, rd := p.base, rr, k := p.offset }
  | .loadDirect, [a, b] => do
      let rd ← register a
      let k ← constantIn labels b 0 0xFFFF
      .ok { op, rd, k }
  | .storeDirect, [a, b] => do
      let k ← constantIn labels a 0 0xFFFF
      let rr ← register b
      .ok { op, rr, k }
  | .throughZ, [a, _] => do
      let rd ← register a
      .ok { op, rd, rr := regZ }
  | _, os => .error (.count 2 os.length)

end Assembly

end StackDepth
