import StackDepth.State.Basic

/-!
# The concrete arithmetic unit

A concrete register file and status register, with the arithmetic, logic, shift and move instructions.
The flags are derived from wide arithmetic on integers, not from single result bits, so that the model
stands on its own beside the abstract transfer functions.
-/

namespace StackDepth

/-- Concrete registers and status register. -/
@[ext]
structure Machine where
  /-- The general registers. -/
  regs : Vector Byte registerCount
  /-- The status register. -/
  sreg : Byte
deriving DecidableEq, Inhabited

namespace Machine

/-- Every register zero. -/
def cleared : Machine := { regs := Vector.replicate registerCount 0#8, sreg := 0#8 }

/-- The value of register `r`, numbers taken modulo the number of registers. -/
def reg (m : Machine) (r : Nat) : Byte := m.regs.get (State.place r)

/-- Stores into register `r`. -/
def setReg (m : Machine) (r : Nat) (b : Byte) : Machine :=
  { m with regs := m.regs.set (State.place r) b (State.place_lt r) }

/-- Status bit `n`. -/
def flag (m : Machine) (n : Nat) : Bool := m.sreg.getLsbD n

/-- Replaces status bit `n`; positions beyond the byte are left alone. -/
def setFlag (m : Machine) (n : Nat) (b : Bool) : Machine :=
  { m with sreg := if b then m.sreg ||| (1#8 <<< n) else m.sreg &&& ~~~(1#8 <<< n) }

/-- `N` and `Z` from `r`, `V` as given, and `S` from `N` and `V`. -/
def setNZVS (m : Machine) (r : Byte) (v : Bool) : Machine :=
  (((m.setFlag Flag.N r.msb).setFlag Flag.Z (r == 0#8)).setFlag Flag.V v).setFlag Flag.S
    (r.msb != v)

/-- The integer lies outside the signed range of a byte. -/
def overflows8 (n : Int) : Bool := n < -128 || 127 < n

/-- The integer lies outside the signed range of a pair. -/
def overflows16 (n : Int) : Bool := n < -32768 || 32767 < n

/-- The sum `a + b + c` and its flags. -/
def addWith (m : Machine) (a b : Byte) (c : Bool) : Machine × Byte :=
  let r := BitVec.ofNat 8 (a.toNat + b.toNat + c.toNat)
  (((m.setFlag Flag.H (15 < a.toNat % 16 + b.toNat % 16 + c.toNat)).setFlag Flag.C
    (255 < a.toNat + b.toNat + c.toNat)).setNZVS r (overflows8 (a.toInt + b.toInt + c.toNat)), r)

/-- The difference `a - b - c` and its flags; with `keepZ` the zero flag can only stay set. -/
def subWith (m : Machine) (a b : Byte) (c keepZ : Bool) : Machine × Byte :=
  let r := BitVec.ofInt 8 ((a.toNat : Int) - b.toNat - c.toNat)
  let t := ((m.setFlag Flag.H (a.toNat % 16 < b.toNat % 16 + c.toNat)).setFlag Flag.C
    (a.toNat < b.toNat + c.toNat)).setNZVS r (overflows8 (a.toInt - b.toInt - c.toNat))
  (if keepZ then t.setFlag Flag.Z (r == 0#8 && m.flag Flag.Z) else t, r)

/-- The flags of a logical result. -/
def logic (m : Machine) (r : Byte) : Machine := m.setNZVS r false

/-- A shift to the left with its flags. -/
def shiftLeftWith (m : Machine) (a : Byte) (entering : Bool) : Machine × Byte :=
  let r := (a <<< 1) ||| BitVec.ofNat 8 entering.toNat
  (((m.setFlag Flag.H (a.getLsbD 3)).setFlag Flag.C a.msb).setNZVS r (r.msb != a.msb), r)

/-- A shift to the right with its flags; `top` holds the bit that enters. -/
def shiftRightWith (m : Machine) (a top : Byte) : Machine × Byte :=
  let r := (a >>> 1) ||| top
  ((m.setFlag Flag.C (a.getLsbD 0)).setNZVS r (r.msb != a.getLsbD 0), r)

/-- Adds `k` to the pair that starts at register `rd`, with its flags. -/
def addPair (m : Machine) (rd : Nat) (k : Int) : Machine :=
  let w := m.reg (rd + 1) ++ m.reg rd
  let r := w + BitVec.ofInt 16 k
  let v := overflows16 (wrap64 (w.toInt + k))
  let sum := wrap64 (w.toNat + k)
  ((((((m.setReg rd (r.extractLsb' 0 8)).setReg (rd + 1) (r.extractLsb' 8 8)).setFlag Flag.N
    r.msb).setFlag Flag.Z (r == 0#16)).setFlag Flag.V v).setFlag Flag.S (r.msb != v)).setFlag Flag.C
    (65535 < sum || sum < 0)

/-- The product of registers `rd` and `rr` into the pair `r1:r0`. -/
def multiply (m : Machine) (i : Instruction) (signedA signedB fractional : Bool) : Machine :=
  let x : Int := if signedA then (m.reg i.rd).toInt else (m.reg i.rd).toNat
  let y : Int := if signedB then (m.reg i.rr).toInt else (m.reg i.rr).toNat
  let product := BitVec.ofInt 16 (x * y)
  let p := if fractional then product <<< 1 else product
  (((m.setFlag Flag.C product.msb).setFlag Flag.Z (p == 0#16)).setReg 0 (p.extractLsb' 0 8)).setReg 1
    (p.extractLsb' 8 8)

/-- What came of executing an instruction. -/
inductive Answer where
  /-- The instruction was executed. -/
  | done
  /-- The model does not cover the opcode. -/
  | notModelled
  /-- The instruction names a register that does not exist. -/
  | noRegister
deriving DecidableEq, Inhabited

/-- Stores a result beside the machine that carries its flags. -/
def store (r : Nat) (p : Machine × Byte) : Machine := p.1.setReg r p.2

/-- Stores a logical result with its flags. -/
def storeLogic (m : Machine) (r : Nat) (b : Byte) : Machine := (m.logic b).setReg r b

/-- Executes `run` if the registers of the list exist. -/
def guarded (m : Machine) (registers : List Nat) (run : Machine) : Machine × Answer :=
  if registers.all (· < registerCount) then (run, .done) else (m, .noRegister)

/-- Executes one instruction. Multiplications and operations on pairs need registers that exist; a
move of a pair that ends behind the last register has moved its low half by then. All other
instructions take register numbers modulo the number of registers. -/
def step (m : Machine) (i : Instruction) : Machine × Answer :=
  let rd := m.reg i.rd
  let rr := m.reg i.rr
  let k := BitVec.ofInt 8 i.k
  match i.op with
  | .ADD => (store i.rd (m.addWith rd rr false), .done)
  | .ADC => (store i.rd (m.addWith rd rr (m.flag Flag.C)), .done)
  | .SUB => (store i.rd (m.subWith rd rr false false), .done)
  | .SUBI => (store i.rd (m.subWith rd k false false), .done)
  | .SBC => (store i.rd (m.subWith rd rr (m.flag Flag.C) true), .done)
  | .SBCI => (store i.rd (m.subWith rd k (m.flag Flag.C) true), .done)
  | .CP => ((m.subWith rd rr false false).1, .done)
  | .CPC => ((m.subWith rd rr (m.flag Flag.C) true).1, .done)
  | .CPI => ((m.subWith rd k false false).1, .done)
  | .NEG => (store i.rd (m.subWith 0#8 rd false false), .done)
  | .INC => (store i.rd (m.setNZVS (rd + 1#8) (rd == 0x7F#8), rd + 1#8), .done)
  | .DEC => (store i.rd (m.setNZVS (rd - 1#8) (rd == 0x80#8), rd - 1#8), .done)
  | .ADIW => m.guarded [i.rd, i.rd + 1] (m.addPair i.rd i.k)
  | .SBIW => m.guarded [i.rd, i.rd + 1] (m.addPair i.rd (wrap64 (-i.k)))
  | .MUL => m.guarded [i.rd, i.rr] (m.multiply i false false false)
  | .MULS => m.guarded [i.rd, i.rr] (m.multiply i true true false)
  | .MULSU => m.guarded [i.rd, i.rr] (m.multiply i true false false)
  | .FMUL => m.guarded [i.rd, i.rr] (m.multiply i false false true)
  | .FMULS => m.guarded [i.rd, i.rr] (m.multiply i true true true)
  | .FMULSU => m.guarded [i.rd, i.rr] (m.multiply i true false true)
  | .AND => (m.storeLogic i.rd (rd &&& rr), .done)
  | .ANDI => (m.storeLogic i.rd (rd &&& k), .done)
  | .CBR => (m.storeLogic i.rd (rd &&& ~~~k), .done)
  | .OR => (m.storeLogic i.rd (rd ||| rr), .done)
  | .ORI | .SBR => (m.storeLogic i.rd (rd ||| k), .done)
  | .EOR => (m.storeLogic i.rd (rd ^^^ rr), .done)
  | .TST => (m.logic rd, .done)
  | .CLR => (m.storeLogic i.rd 0#8, .done)
  | .SER => (m.setReg i.rd 0xFF#8, .done)
  | .COM => ((m.storeLogic i.rd (~~~rd)).setFlag Flag.C true, .done)
  | .LSL => (store i.rd (m.shiftLeftWith rd false), .done)
  | .ROL => (store i.rd (m.shiftLeftWith rd (m.flag Flag.C)), .done)
  | .LSR => (store i.rd (m.shiftRightWith rd 0#8), .done)
  | .ROR => (store i.rd (m.shiftRightWith rd (if m.flag Flag.C then 0x80#8 else 0#8)), .done)
  | .ASR => (store i.rd (m.shiftRightWith rd (rd &&& 0x80#8)), .done)
  | .SWAP => (m.setReg i.rd ((rd <<< 4) ||| (rd >>> 4)), .done)
  | .MOV => (m.setReg i.rd rr, .done)
  | .MOVW =>
      if i.rr + 1 < registerCount ∧ i.rd < registerCount then
        let low := m.setReg i.rd rr
        if i.rd + 1 < registerCount then (low.setReg (i.rd + 1) (m.reg (i.rr + 1)), .done)
        else (low, .noRegister)
      else (m, .noRegister)
  | .LDI => (m.setReg i.rd k, .done)
  | .BSET => (m.setFlag i.bit true, .done)
  | .BCLR => (m.setFlag i.bit false, .done)
  | .BST => (m.setFlag Flag.T (rr.getLsbD i.bit), .done)
  | .BLD =>
      (m.setReg i.rr (if m.flag Flag.T then rr ||| (1#8 <<< i.bit) else rr &&& ~~~(1#8 <<< i.bit)),
        .done)
  | _ => (m, .notModelled)

/-- Executes a cell; no number outside the catalogue is modelled. -/
def stepCell (m : Machine) : Cell → Machine × Answer
  | .instr i => m.step i
  | .reserved _ => (m, .notModelled)

/-- The opcodes that `step` models, in the order in which the self-check takes them. -/
def modelled : List Opcode := [
  .ADD, .ADC, .SUB, .SUBI, .SBC, .SBCI, .CP, .CPC, .CPI, .NEG, .INC, .DEC, .ADIW, .SBIW, .MUL, .MULS,
  .MULSU, .FMUL, .FMULS, .FMULSU, .AND, .ANDI, .CBR, .OR, .ORI, .SBR, .EOR, .TST, .CLR, .SER, .COM,
  .LSL, .ROL, .LSR, .ROR, .ASR, .SWAP, .MOV, .MOVW, .LDI, .BSET, .BCLR, .BST, .BLD]

/-- The registers and the status register of the state cover those of the machine. -/
def CoveredBy (m : Machine) (s : State) : Prop :=
  (∀ r : Fin registerCount, (s.regs.get r).Covers (m.regs.get r)) ∧ s.sreg.Covers m.sreg

end Machine

end StackDepth
