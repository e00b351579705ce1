import StackDepth.Instruction.Opcode
import StackDepth.Text.LetterCase

/-!
# The catalogue of instructions

What every opcode has on its own, whatever its operands are: the mnemonic, the form of its operands
and its size in bytes. Several opcodes share a mnemonic when only the operands tell them apart; looking
a mnemonic up gives the first of them.
-/

namespace StackDepth

/-- How the operands of an opcode are written. -/
inductive Form where
  /-- No operand: `RET`. -/
  | bare
  /-- Two registers: `ADD Rd, Rr`. -/
  | twoRegisters
  /-- One register: `INC Rd`. -/
  | oneRegister
  /-- A register and a byte: `LDI Rd, K`. -/
  | immediate
  /-- The low register of a pair and a constant: `ADIW Rd, K`. -/
  | wordImmediate
  /-- A signed distance in words: `RJMP k`. -/
  | relative
  /-- A word address: `JMP k`. -/
  | absolute
  /-- A status bit and a distance: `BRBS s, k`. -/
  | flagRelative
  /-- A register and a port: `IN Rd, A`. -/
  | portIn
  /-- A port and a register: `OUT A, Rr`. -/
  | portOut
  /-- A port and a bit: `SBI A, b`. -/
  | portBit
  /-- A register and a bit: `SBRC Rr, b`. -/
  | registerBit
  /-- A status bit: `BSET s`. -/
  | flag
  /-- A register and a pointer: `LD Rd, X`. -/
  | load
  /-- A register and a pointer with displacement: `LDD Rd, Y+q`. -/
  | loadOffset
  /-- A pointer and a register: `ST X, Rr`. -/
  | store
  /-- A pointer with displacement and a register: `STD Y+q, Rr`. -/
  | storeOffset
  /-- A register and a data address: `LDS Rd, k`. -/
  | loadDirect
  /-- A data address and a register: `STS k, Rr`. -/
  | storeDirect
  /-- A register read through `Z`: `LPM Rd, Z`. -/
  | throughZ
  /-- Two register pairs: `MOVW Rd, Rr`. -/
  | pairs
deriving DecidableEq, Inhabited

/-- The number of a form. -/
def Form.code (f : Form) : Nat := f.ctorIdx

namespace Opcode

/-- The mnemonic of an opcode. -/
def mnemonic : Opcode → String
  | ADD => "ADD"
  | ADC => "ADC"
  | ADIW => "ADIW"
  | SUB => "SUB"
  | SUBI => "SUBI"
  | SBC => "SBC"
  | SBCI => "SBCI"
  | SBIW => "SBIW"
  | AND => "AND"
  | ANDI => "ANDI"
  | OR => "OR"
  | ORI => "ORI"
  | EOR => "EOR"
  | COM => "COM"
  | NEG => "NEG"
  | SBR => "SBR"
  | CBR => "CBR"
  | INC => "INC"
  | DEC => "DEC"
  | TST => "TST"
  | CLR => "CLR"
  | SER => "SER"
  | MUL => "MUL"
  | MULS => "MULS"
  | MULSU => "MULSU"
  | FMUL => "FMUL"
  | FMULS => "FMULS"
  | FMULSU => "FMULSU"
  | RJMP => "RJMP"
  | IJMP => "IJMP"
  | EIJMP => "EIJMP"
  | JMP => "JMP"
  | RCALL => "RCALL"
  | ICALL => "ICALL"
  | EICALL => "EICALL"
  | CALL => "CALL"
  | RET => "RET"
  | RETI => "RETI"
  | CPSE => "CPSE"
  | CP => "CP"
  | CPC => "CPC"
  | CPI => "CPI"
  | SBRC => "SBRC"
  | SBRS => "SBRS"
  | SBIC => "SBIC"
  | SBIS => "SBIS"
  | BRBS => "BRBS"
  | BRBC => "BRBC"
  | BREQ => "BREQ"
  | BRNE => "BRNE"
  | BRCS => "BRCS"
  | BRCC => "BRCC"
  | BRSH => "BRSH"
  | BRLO => "BRLO"
  | BRMI => "BRMI"
  | BRPL => "BRPL"
  | BRGE => "BRGE"
  | BRLT => "BRLT"
  | BRHS => "BRHS"
  | BRHC => "BRHC"
  | BRTS => "BRTS"
  | BRTC => "BRTC"
  | BRVS => "BRVS"
  | BRVC => "BRVC"
  | BRIE => "BRIE"
  | BRID => "BRID"
  | MOV => "MOV"
  | MOVW => "MOVW"
  | LDI => "LDI"
  | LD => "LD"
  | LDPI => "LD"
  | LDPD => "LD"
  | LDD => "LDD"
  | LDS => "LDS"
  | ST => "ST"
  | STPI => "ST"
  | STPD => "ST"
  | STD => "STD"
  | STS => "STS"
  | LPM => "LPM"
  | LPMD => "LPM"
  | LPMPI => "LPM"
  | ELPM => "ELPM"
  | ELPMD => "ELPM"
  | ELPMPI => "ELPM"
  | SPM => "SPM"
  | IN => "IN"
  | OUT => "OUT"
  | PUSH => "PUSH"
  | POP => "POP"
  | SBI => "SBI"
  | CBI => "CBI"
  | LSL => "LSL"
  | LSR => "LSR"
  | ROL => "ROL"
  | ROR => "ROR"
  | ASR => "ASR"
  | SWAP => "SWAP"
  | BSET => "BSET"
  | BCLR => "BCLR"
  | BST => "BST"
  | BLD => "BLD"
  | SEC => "SEC"
  | CLC => "CLC"
  | SEN => "SEN"
  | CLN => "CLN"
  | SEZ => "SEZ"
  | CLZ => "CLZ"
  | SEI => "SEI"
  | CLI => "CLI"
  | SES => "SES"
  | CLS => "CLS"
  | SEV => "SEV"
  | CLV => "CLV"
  | SET => "SET"
  | CLT => "CLT"
  | SEH => "SEH"
  | CLH => "CLH"
  | BREAK => "BREAK"
  | NOP => "NOP"
  | SLEEP => "SLEEP"
  | WDR => "WDR"

/-- The form of the operands of an opcode. -/
def form : Opcode → Form
  | IJMP | EIJMP | ICALL | EICALL | RET | RETI | LPM | ELPM | SPM | SEC | CLC | SEN | CLN | SEZ
  | CLZ | SEI | CLI | SES | CLS | SEV | CLV | SET | CLT | SEH | CLH | BREAK | NOP | SLEEP | WDR => .bare
  | ADD | ADC | SUB | SBC | AND | OR | EOR | MUL | MULS | MULSU | FMUL | FMULS | FMULSU | CPSE
  | CP | CPC | MOV => .twoRegisters
  | COM | NEG | INC | DEC | TST | CLR | SER | PUSH | POP | LSL | LSR | ROL | ROR | ASR | SWAP => .oneRegister
  | SUBI | SBCI | ANDI | ORI | SBR | CBR | CPI | LDI => .immediate
  | ADIW | SBIW => .wordImmediate
  | RJMP | RCALL | BREQ | BRNE | BRCS | BRCC | BRSH | BRLO | BRMI | BRPL | BRGE | BRLT | BRHS
  | BRHC | BRTS | BRTC | BRVS | BRVC | BRIE | BRID => .relative
  | JMP | CALL => .absolute
  | BRBS | BRBC => .flagRelative
  | IN => .portIn
  | OUT => .portOut
  | SBIC | SBIS | SBI | CBI => .portBit
  | SBRC | SBRS | BST | BLD => .registerBit
  | BSET | BCLR => .flag
  | LD | LDPI | LDPD => .load
  | LDD => .loadOffset
  | ST | STPI | STPD => .store
  | STD => .storeOffset
  | LDS => .loadDirect
  | STS => .storeDirect
  | LPMD | LPMPI | ELPMD | ELPMPI => .throughZ
  | MOVW => .pairs

/-- The size of an instruction in bytes: four with an absolute or a data address, else two. -/
def size (op : Opcode) : Nat :=
  match op.form with
  | .absolute | .loadDirect | .storeDirect => 4
  | _ => 2

/-- The first opcode with a mnemonic, in any mixture of upper and lower case. -/
def lookup? (name : String) : Option Opcode :=
  let wanted := Text.toUpper name
  all.find? fun op => op.mnemonic == wanted

end Opcode

end StackDepth
