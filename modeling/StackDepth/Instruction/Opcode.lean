/-!
# Opcodes

The 122 instructions of the processor. The plain, post-increment and pre-decrement forms of the loads
and stores are opcodes of their own, and so are the assembler's alternative names (`CLR`, `TST`,
`LSL`, ...), so that an instruction is written back the way it was read.

`Opcode.ofCode?` and `Opcode.code` number the opcodes from 0 in the order of `Opcode.all`.
-/

namespace StackDepth

/-- An instruction of the processor. -/
inductive Opcode where
  | ADD | ADC | ADIW | SUB | SUBI | SBC | SBCI | SBIW | AND | ANDI | OR | ORI | EOR | COM | NEG
  | SBR | CBR | INC | DEC | TST | CLR | SER | MUL | MULS | MULSU | FMUL | FMULS | FMULSU
  | RJMP | IJMP | EIJMP | JMP | RCALL | ICALL | EICALL | CALL | RET | RETI | CPSE | CP | CPC | CPI
  | SBRC | SBRS | SBIC | SBIS | BRBS | BRBC | BREQ | BRNE | BRCS | BRCC | BRSH | BRLO | BRMI
  | BRPL | BRGE | BRLT | BRHS | BRHC | BRTS | BRTC | BRVS | BRVC | BRIE | BRID
  | MOV | MOVW | LDI | LD | LDPI | LDPD | LDD | LDS | ST | STPI | STPD | STD | STS | LPM | LPMD
  | LPMPI | ELPM | ELPMD | ELPMPI | SPM | IN | OUT | PUSH | POP
  | SBI | CBI | LSL | LSR | ROL | ROR | ASR | SWAP | BSET | BCLR | BST | BLD | SEC | CLC | SEN
  | CLN | SEZ | CLZ | SEI | CLI | SES | CLS | SEV | CLV | SET | CLT | SEH | CLH
  | BREAK | NOP | SLEEP | WDR
deriving DecidableEq, Inhabited

namespace Opcode

/-- All opcodes in the order of their numbers. -/
def all : List Opcode := [
  .ADD, .ADC, .ADIW, .SUB, .SUBI, .SBC, .SBCI, .SBIW, .AND, .ANDI, .OR, .ORI, .EOR, .COM, .NEG,
  .SBR, .CBR, .INC, .DEC, .TST, .CLR, .SER, .MUL, .MULS, .MULSU, .FMUL, .FMULS, .FMULSU, .RJMP,
  .IJMP, .EIJMP, .JMP, .RCALL, .ICALL, .EICALL, .CALL, .RET, .RETI, .CPSE, .CP, .CPC, .CPI, .SBRC,
  .SBRS, .SBIC, .SBIS, .BRBS, .BRBC, .BREQ, .BRNE, .BRCS, .BRCC, .BRSH, .BRLO, .BRMI, .BRPL,
  .BRGE, .BRLT, .BRHS, .BRHC, .BRTS, .BRTC, .BRVS, .BRVC, .BRIE, .BRID, .MOV, .MOVW, .LDI, .LD,
  .LDPI, .LDPD, .LDD, .LDS, .ST, .STPI, .STPD, .STD, .STS, .LPM, .LPMD, .LPMPI, .ELPM, .ELPMD,
  .ELPMPI, .SPM, .IN, .OUT, .PUSH, .POP, .SBI, .CBI, .LSL, .LSR, .ROL, .ROR, .ASR, .SWAP, .BSET,
  .BCLR, .BST, .BLD, .SEC, .CLC, .SEN, .CLN, .SEZ, .CLZ, .SEI, .CLI, .SES, .CLS, .SEV, .CLV, .SET,
  .CLT, .SEH, .CLH, .BREAK, .NOP, .SLEEP, .WDR]

/-- The number of an opcode. -/
def code (op : Opcode) : Nat := op.ctorIdx

/-- The opcode with a number, if there is one. -/
def ofCode? (n : Nat) : Option Opcode := all[n]?

/-- Every opcode stands at its own number. -/
theorem ofCode?_code (op : Opcode) : ofCode? op.code = some op := by
  cases op <;> rfl

/-- The opcode may continue elsewhere than at the next instruction. -/
def isBranch (op : Opcode) : Bool := RJMP.code ≤ op.code && op.code ≤ BRID.code

/-- The opcode may leave out the instruction that follows. -/
def isSkip : Opcode → Bool
  | CPSE | SBRC | SBRS | SBIC | SBIS => true
  | _ => false

/-- The status bit that a set or clear instruction without operands works on, and whether it sets
it. -/
def flagAction? : Opcode → Option (Nat × Bool)
  | SEC => some (0, true)
  | CLC => some (0, false)
  | SEZ => some (1, true)
  | CLZ => some (1, false)
  | SEN => some (2, true)
  | CLN => some (2, false)
  | SEV => some (3, true)
  | CLV => some (3, false)
  | SES => some (4, true)
  | CLS => some (4, false)
  | SEH => some (5, true)
  | CLH => some (5, false)
  | SET => some (6, true)
  | CLT => some (6, false)
  | SEI => some (7, true)
  | CLI => some (7, false)
  | _ => none

/-- The status bit that a branch named for a flag tests, and the value on which it is taken. -/
def flagTest? : Opcode → Option (Nat × Bool)
  | BREQ => some (1, true)
  | BRNE => some (1, false)
  | BRCS => some (0, true)
  | BRLO => some (0, true)
  | BRCC => some (0, false)
  | BRSH => some (0, false)
  | BRMI => some (2, true)
  | BRPL => some (2, false)
  | BRLT => some (4, true)
  | BRGE => some (4, false)
  | BRHS => some (5, true)
  | BRHC => some (5, false)
  | BRTS => some (6, true)
  | BRTC => some (6, false)
  | BRVS => some (3, true)
  | BRVC => some (3, false)
  | BRIE => some (7, true)
  | BRID => some (7, false)
  | _ => none

end Opcode

end StackDepth
