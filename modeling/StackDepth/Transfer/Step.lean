import StackDepth.Transfer.Alu

/-!
# Executing one instruction on an abstract state

`straight` is the transfer function of the instructions that always continue at the next one: it
changes registers, flags and ports. `step` adds the branches, skips, jumps, calls and returns. A branch
whose condition is unknown leaves the state that falls through and reports the taken one beside it.

The state that a failing step leaves is part of its answer: a skip that cannot find the instruction to
skip has already moved the program counter.
-/

namespace StackDepth

namespace State

/-- The low byte of a constant, fully known. -/
def immediate (k : Int) : Tribyte := .ofByte (BitVec.ofInt 8 k)

/-- Stores a result beside the state that carries its flags. -/
def store (r : Nat) (p : State × Tribyte) : State := p.1.setReg r p.2

/-- Stores a logical result with its flags. -/
def storeLogic (s : State) (r : Nat) (v : Tribyte) : State := (s.logic v).setReg r v

/-- The state after an instruction that continues at the next one. Instructions with no tracked effect
and those that transfer control leave the state alone. -/
def straight (s : State) (i : Instruction) : State :=
  match i.op with
  | .ADD => store i.rd (s.addWith (s.reg i.rd) (s.reg i.rr) .no)
  | .ADC => store i.rd (s.addWith (s.reg i.rd) (s.reg i.rr) (s.flag Flag.C))
  | .SUB => store i.rd (s.subWith (s.reg i.rd) (s.reg i.rr) .no false)
  | .SUBI => store i.rd (s.subWith (s.reg i.rd) (immediate i.k) .no false)
  | .SBC => store i.rd (s.subWith (s.reg i.rd) (s.reg i.rr) (s.flag Flag.C) true)
  | .SBCI => store i.rd (s.subWith (s.reg i.rd) (immediate i.k) (s.flag Flag.C) true)
  | .NEG => store i.rd (s.subWith .zero (s.reg i.rd) .no false)
  | .INC =>
      let r := (s.reg i.rd).inc
      (s.setNZVS r (r.equal (.ofByte 0x80#8))).setReg i.rd r
  | .DEC =>
      let r := (s.reg i.rd).dec
      (s.setNZVS r (r.equal (.ofByte 0x7F#8))).setReg i.rd r
  | .ADIW => s.addPair i.rd i.k
  | .SBIW => s.addPair i.rd (wrap64 (-i.k))
  | .MUL => s.multiply i false false false
  | .MULS => s.multiply i true true false
  | .MULSU => s.multiply i true false false
  | .FMUL => s.multiply i false false true
  | .FMULS => s.multiply i true true true
  | .FMULSU => s.multiply i true false true
  | .AND => s.storeLogic i.rd ((s.reg i.rd).and (s.reg i.rr))
  | .ANDI => s.storeLogic i.rd ((s.reg i.rd).and (immediate i.k))
  | .CBR => s.storeLogic i.rd ((s.reg i.rd).and (.ofByte (~~~(BitVec.ofInt 8 i.k))))
  | .TST => s.logic (s.reg i.rd)
  | .OR => s.storeLogic i.rd ((s.reg i.rd).or (s.reg i.rr))
  | .ORI | .SBR => s.storeLogic i.rd ((s.reg i.rd).or (immediate i.k))
  | .EOR =>
      s.storeLogic i.rd (if i.rd = i.rr then .zero else (s.reg i.rd).xor (s.reg i.rr))
  | .CLR => s.storeLogic i.rd .zero
  | .COM =>
      let r := (s.reg i.rd).not
      ((s.logic r).setFlag Flag.C .yes).setReg i.rd r
  | .SER => s.setReg i.rd (.ofByte 0xFF#8)
  | .CP => (s.subWith (s.reg i.rd) (s.reg i.rr) .no false).1
  | .CPC => (s.subWith (s.reg i.rd) (s.reg i.rr) (s.flag Flag.C) true).1
  | .CPI => (s.subWith (s.reg i.rd) (immediate i.k) .no false).1
  | .LSL => store i.rd (s.shiftLeftWith (s.reg i.rd) .no)
  | .ROL => store i.rd (s.shiftLeftWith (s.reg i.rd) (s.flag Flag.C))
  | .LSR => store i.rd (s.shiftRightWith (s.reg i.rd) .no)
  | .ROR => store i.rd (s.shiftRightWith (s.reg i.rd) (s.flag Flag.C))
  | .ASR => store i.rd (s.shiftRightWith (s.reg i.rd) ((s.reg i.rd).bit 7))
  | .SWAP => s.setReg i.rd (s.reg i.rd).swap
  | .BSET => s.setFlag i.bit .yes
  | .BCLR => s.setFlag i.bit .no
  | .BST => s.setFlag Flag.T ((s.reg i.rr).bit i.bit)
  | .BLD => s.setReg i.rr ((s.reg i.rr).setBit i.bit (s.flag Flag.T))
  | .MOV => s.setReg i.rd (s.reg i.rr)
  | .MOVW =>
      let t := s.setReg i.rd (s.reg i.rr)
      t.setReg (i.rd + 1) (t.reg (i.rr + 1))
  | .LDI => s.setReg i.rd (immediate i.k)
  | .IN => s.setReg i.rd (s.port i.k)
  | .OUT => s.setPort i.k (s.reg i.rr)
  | .SBI => s.setPort i.k ((s.port i.k).setBit i.bit .yes)
  | .CBI => s.setPort i.k ((s.port i.k).setBit i.bit .no)
  | .LD | .LDD | .LPMD | .ELPMD | .POP => s.setReg i.rd .unknown
  | .LDPI => (s.setReg i.rd .unknown).movePointer i.rr 1
  | .LDPD => (s.setReg i.rd .unknown).movePointer i.rr (-1)
  | .LDS => s.setReg i.rd (s.data i.k)
  | .STPI => s.movePointer i.rd 1
  | .STPD => s.movePointer i.rd (-1)
  | .STS => s.setData i.k (s.reg i.rr)
  | .LPM | .ELPM => s.setReg 0 .unknown
  | .LPMPI | .ELPMPI => (s.setReg i.rd .unknown).movePointer regZ 1
  | op =>
      match op.flagAction? with
      | some (n, b) => s.setFlag n (.ofBool b)
      | none => s

/-- The condition on which a skip leaves out the next instruction. -/
def skipTest? (s : State) (i : Instruction) : Option Tribyte :=
  match i.op with
  | .CPSE => some ((s.reg i.rd).equal (s.reg i.rr))
  | .SBRC => some ((s.reg i.rr).bit i.bit).not
  | .SBRS => some ((s.reg i.rr).bit i.bit)
  | .SBIC => some ((s.port i.k).bit i.bit).not
  | .SBIS => some ((s.port i.k).bit i.bit)
  | _ => none

/-- Goes to `target` on the three-valued condition `c`, or to where the state stands. -/
def branch (s : State) (c : Tribyte) (target : Address) : State × Effect :=
  if c = .yes then ({ s with pc := target }, .next none)
  else if c = .no then (s, .next none)
  else (s, .next (some { s with pc := target }))

/-- The effect of an instruction that neither branches nor skips, and the state it leaves; `pc` is
where it stands and `s` the state with the program counter behind it. -/
def proceed (s : State) (pc : Address) (i : Instruction) : State × Effect :=
  match i.op with
  | .RJMP => ({ s with pc := relativeTarget pc i.k }, .next none)
  | .JMP => ({ s with pc := absoluteTarget i.k }, .next none)
  | .RCALL => ({ s with pc := pc }, .call (relativeTarget pc i.k))
  | .CALL => ({ s with pc := pc }, .call (absoluteTarget i.k))
  | .ICALL | .EICALL => ({ s with pc := pc }, .indirectCall)
  | .IJMP | .EIJMP => ({ s with pc := pc }, .indirectJump)
  | .RET => ({ s with pc := pc }, .ret)
  | .RETI => ({ s with pc := pc }, .reti)
  | .BREAK => ({ s with pc := pc }, .halt)
  | .PUSH => (s, .push)
  | .POP => (s.straight i, .pop)
  | _ => (s.straight i, .next none)

/-- Executes the instruction at the program counter. -/
def step (code : NextAddress) (s : State) (i : Instruction) : State × Except StepError Effect :=
  let pc := s.pc
  let t := { s with pc := pc + BitVec.ofNat 16 i.size }
  match i.branchTest? with
  | some (n, b) =>
      let c := if b then t.flag n else (t.flag n).not
      let (u, e) := t.branch c (relativeTarget pc i.k)
      (u, .ok e)
  | none =>
      match t.skipTest? i with
      | some c =>
          match code t.pc with
          | .ok target =>
              let (u, e) := t.branch c target
              (u, .ok e)
          | .error cause => (t, .error (.skip (t.pc - 2#16) cause))
      | none =>
          let (u, e) := t.proceed pc i
          (u, .ok e)

/-- Executes the cell at the program counter. A number outside the catalogue changes nothing. -/
def stepCell (code : NextAddress) (s : State) : Cell → State × Except StepError Effect
  | .instr i => s.step code i
  | .reserved n => (s, .error (.unsupported n s.pc))

end State

end StackDepth
