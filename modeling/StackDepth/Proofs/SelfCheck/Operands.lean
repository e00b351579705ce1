import Mathlib
import StackDepth.Proofs.Transfer.Soundness
import StackDepth.SelfCheck.Check

/-!
# Operand registers

A case of the self-check gives values to the operand registers of its instruction, and all other registers
are zero. Which registers these are depends on the form of the instruction. They are enough: an instruction
reads no other register, so what it writes on any machine, it writes on the machine of a case that has the
same operands and the same status register.

* `SelfCheck.operandRegisters_cases`: the operand registers of each form;
* `SelfCheck.operandRegisters_eq_iff`: the instructions that have only one;
* `SelfCheck.writtenAlike_step`: no other register is read;
* `SelfCheck.writtenAlike_withOperandsOf`: the machines of the cases stand for all machines.
-/

namespace StackDepth

/-! ### The same writes on two machines -/

theorem Machine.reg_eq_of_place (m : Machine) {r q : Nat} (h : State.place r = State.place q) :
    m.reg r = m.reg q := by
  rw [Machine.reg, Machine.reg, h]

/-- The same writes lead from `m` to `n` and from `m'` to `n'`. -/
structure Machine.WrittenAlike (m m' n n' : Machine) : Prop where
  /-- The status registers agree. -/
  sreg : n.sreg = n'.sreg
  /-- A register holds the same value on both sides, or on both sides it is as it was. -/
  regs : ∀ r, n.reg r = n'.reg r ∨ n.reg r = m.reg r ∧ n'.reg r = m'.reg r

namespace Machine.WrittenAlike

variable {m m' n n' : Machine} {a a' b b' : Byte} {x x' : Bool}

theorem start (h : m.sreg = m'.sreg) : WrittenAlike m m' m m' := ⟨h, fun _ => .inr ⟨rfl, rfl⟩⟩

theorem flag (h : WrittenAlike m m' n n') (k : Nat) : n.flag k = n'.flag k :=
  congrArg (·.getLsbD k) h.sreg

theorem setReg (h : WrittenAlike m m' n n') (hb : b = b') (r : Nat) :
    WrittenAlike m m' (n.setReg r b) (n'.setReg r b') := by
  subst hb
  refine ⟨h.sreg, fun q => ?_⟩
  by_cases hq : State.place r = State.place q
  · rw [← Machine.reg_eq_of_place _ hq, ← Machine.reg_eq_of_place _ hq, Machine.reg_setReg_self,
      Machine.reg_setReg_self]
    exact .inl rfl
  · rw [reg_setReg_of_ne n b hq, reg_setReg_of_ne n' b hq]
    exact h.regs q

theorem setFlag (h : WrittenAlike m m' n n') (hx : x = x') (k : Nat) :
    WrittenAlike m m' (n.setFlag k x) (n'.setFlag k x') := by
  subst hx
  refine ⟨?_, h.regs⟩
  simp only [Machine.setFlag, h.sreg]

theorem setNZVS (h : WrittenAlike m m' n n') (hb : b = b') (hx : x = x') :
    WrittenAlike m m' (n.setNZVS b x) (n'.setNZVS b' x') := by
  subst hb hx
  exact (((h.setFlag rfl _).setFlag rfl _).setFlag rfl _).setFlag rfl _

theorem store {p p' : Machine × Byte} (h : WrittenAlike m m' p.1 p'.1 ∧ p.2 = p'.2) (r : Nat) :
    WrittenAlike m m' (Machine.store r p) (Machine.store r p') :=
  h.1.setReg h.2 r

theorem storeLogic (h : WrittenAlike m m' n n') (hb : b = b') (r : Nat) :
    WrittenAlike m m' (n.storeLogic r b) (n'.storeLogic r b') :=
  (h.setNZVS hb rfl).setReg hb r

theorem addWith (h : WrittenAlike m m' n n') (ha : a = a') (hb : b = b') (hx : x = x') :
    WrittenAlike m m' (n.addWith a b x).1 (n'.addWith a' b' x').1 ∧
      (n.addWith a b x).2 = (n'.addWith a' b' x').2 := by
  subst ha hb hx
  exact ⟨((h.setFlag rfl _).setFlag rfl _).setNZVS rfl rfl, rfl⟩

theorem subWith (h : WrittenAlike m m' n n') (ha : a = a') (hb : b = b') (hx : x = x') (keepZ : Bool) :
    WrittenAlike m m' (n.subWith a b x keepZ).1 (n'.subWith a' b' x' keepZ).1 ∧
      (n.subWith a b x keepZ).2 = (n'.subWith a' b' x' keepZ).2 := by
  subst ha hb hx
  have hflags := ((h.setFlag (rfl : decide (a.toNat % 16 < b.toNat % 16 + x.toNat) = _) Flag.H).setFlag
    (rfl : decide (a.toNat < b.toNat + x.toNat) = _) Flag.C).setNZVS
      (rfl : BitVec.ofInt 8 ((a.toNat : Int) - b.toNat - x.toNat) = _)
      (rfl : Machine.overflows8 (a.toInt - b.toInt - x.toNat) = _)
  refine ⟨?_, rfl⟩
  cases keepZ with
  | false => exact hflags
  | true => exact hflags.setFlag (by rw [h.flag]) Flag.Z

theorem shiftLeftWith (h : WrittenAlike m m' n n') (ha : a = a') (hx : x = x') :
    WrittenAlike m m' (n.shiftLeftWith a x).1 (n'.shiftLeftWith a' x').1 ∧
      (n.shiftLeftWith a x).2 = (n'.shiftLeftWith a' x').2 := by
  subst ha hx
  exact ⟨((h.setFlag rfl _).setFlag rfl _).setNZVS rfl rfl, rfl⟩

theorem shiftRightWith (h : WrittenAlike m m' n n') (ha : a = a') (hb : b = b') :
    WrittenAlike m m' (n.shiftRightWith a b).1 (n'.shiftRightWith a' b').1 ∧
      (n.shiftRightWith a b).2 = (n'.shiftRightWith a' b').2 := by
  subst ha hb
  exact ⟨(h.setFlag rfl _).setNZVS rfl rfl, rfl⟩

theorem addPair (hsreg : m.sreg = m'.sreg) {rd : Nat} (hlow : m.reg rd = m'.reg rd)
    (hhigh : m.reg (rd + 1) = m'.reg (rd + 1)) (k : Int) :
    WrittenAlike m m' (m.addPair rd k) (m'.addPair rd k) := by
  simp only [Machine.addPair, hlow, hhigh]
  exact (((((((start hsreg).setReg rfl _).setReg rfl _).setFlag rfl _).setFlag rfl _).setFlag rfl
    _).setFlag rfl _).setFlag rfl _

theorem multiply (hsreg : m.sreg = m'.sreg) {i : Instruction} (hd : m.reg i.rd = m'.reg i.rd)
    (hr : m.reg i.rr = m'.reg i.rr) (signedA signedB fractional : Bool) :
    WrittenAlike m m' (m.multiply i signedA signedB fractional)
      (m'.multiply i signedA signedB fractional) := by
  simp only [Machine.multiply, hd, hr]
  exact ((((start hsreg).setFlag rfl _).setFlag rfl _).setReg rfl _).setReg rfl _

theorem guarded (hsreg : m.sreg = m'.sreg) (h : WrittenAlike m m' n n') (registers : List Nat) :
    WrittenAlike m m' (m.guarded registers n).1 (m'.guarded registers n').1 := by
  unfold Machine.guarded
  split
  · exact h
  · exact start hsreg

end Machine.WrittenAlike

namespace SelfCheck

/-! ### The operand registers by form -/

/-- The forms of the modelled opcodes. -/
theorem form_of_modelled {op : Opcode} (hop : op ∈ Machine.modelled) : op.form ∈
    [.twoRegisters, .pairs, .oneRegister, .immediate, .wordImmediate, .registerBit, .flag] := by
  have hall : ∀ op ∈ Machine.modelled, op.form ∈
      [.twoRegisters, .pairs, .oneRegister, .immediate, .wordImmediate, .registerBit, .flag] := by
    decide
  exact hall op hop

/-- The operand registers are the two of the instruction, both halves of a pair, or the only register of the
instruction. A pair is moved from its source and otherwise changed in place, and the register of a bit is
the source register. -/
theorem operandRegisters_cases {i : Instruction} (hop : i.op ∈ Machine.modelled) :
    (i.op.form = .twoRegisters ∧ operandRegisters i = (i.rd, i.rr)) ∨
    (i.op.form = .pairs ∧ operandRegisters i = (i.rr, i.rr + 1)) ∨
    (i.op.form = .wordImmediate ∧ operandRegisters i = (i.rd, i.rd + 1)) ∨
    (i.op.form = .registerBit ∧ operandRegisters i = (i.rr, i.rr)) ∨
    (i.op.form ∈ [.oneRegister, .immediate, .flag] ∧ operandRegisters i = (i.rd, i.rd)) := by
  have hform := form_of_modelled hop
  simp only [List.mem_cons, List.not_mem_nil, or_false] at hform
  rcases hform with h | h | h | h | h | h | h <;> simp [operandRegisters, h]

/-- There is only one operand register unless the form has two of them and they differ. -/
theorem operandRegisters_eq_iff {i : Instruction} (hop : i.op ∈ Machine.modelled) :
    (operandRegisters i).1 = (operandRegisters i).2 ↔
      i.op.form ∈ [.oneRegister, .immediate, .registerBit, .flag] ∨
        i.op.form = .twoRegisters ∧ i.rd = i.rr := by
  rcases operandRegisters_cases hop with ⟨h, heq⟩ | ⟨h, heq⟩ | ⟨h, heq⟩ | ⟨h, heq⟩ | ⟨h, heq⟩
  case inr.inr.inr.inr =>
    rw [heq]
    simp only [List.mem_cons, List.not_mem_nil, or_false] at h
    rcases h with h | h | h <;> simp [h]
  all_goals simp [heq, h]

/-- The operand registers exist. -/
theorem operandRegisters_lt {i : Instruction} (hop : i.op ∈ Machine.modelled) (hi : i.Encodable) :
    (operandRegisters i).1 < registerCount ∧ (operandRegisters i).2 < registerCount := by
  have hform := form_of_modelled hop
  simp only [List.mem_cons, List.not_mem_nil, or_false] at hform
  rcases hform with h | h | h | h | h | h | h
  case inr.inr.inr.inr.inr.inr =>
    -- an instruction on a flag has no operand register, and its fields are zero
    simp only [Instruction.Encodable, operandRegisters, h, registerCount] at hi ⊢
    have hzero : i.rd = 0 := congrArg Instruction.rd hi.1
    omega
  all_goals
    simp only [Instruction.Encodable, operandRegisters, h, registerCount] at hi ⊢
    omega

/-! ### What an instruction reads -/

open Machine in
/-- An instruction reads no register besides its operand registers: on two machines that agree on these
and on the status register it makes the same writes. -/
theorem writtenAlike_step {m m' : Machine} {i : Instruction} (hop : i.op ∈ Machine.modelled)
    (hsreg : m.sreg = m'.sreg)
    (hfirst : m.reg (operandRegisters i).1 = m'.reg (operandRegisters i).1)
    (hsecond : m.reg (operandRegisters i).2 = m'.reg (operandRegisters i).2) :
    WrittenAlike m m' (m.step i).1 (m'.step i).1 := by
  obtain ⟨op, rd, rr, k, bit⟩ := i
  dsimp only at hop
  have h := WrittenAlike.start hsreg
  have hc := h.flag Flag.C
  have ht := h.flag Flag.T
  cases op
  case ADD => exact .store (h.addWith hfirst hsecond rfl) rd
  case ADC => exact .store (h.addWith hfirst hsecond hc) rd
  case SUB => exact .store (h.subWith hfirst hsecond rfl false) rd
  case SUBI => exact .store (h.subWith hfirst rfl rfl false) rd
  case SBC => exact .store (h.subWith hfirst hsecond hc true) rd
  case SBCI => exact .store (h.subWith hfirst rfl hc true) rd
  case CP => exact (h.subWith hfirst hsecond rfl false).1
  case CPC => exact (h.subWith hfirst hsecond hc true).1
  case CPI => exact (h.subWith hfirst rfl rfl false).1
  case NEG => exact .store (h.subWith rfl hfirst rfl false) rd
  case INC | DEC =>
    have hd : m.reg rd = m'.reg rd := hfirst
    simp only [Machine.step, hd]
    exact (h.setNZVS rfl rfl).setReg rfl rd
  case ADIW | SBIW => exact .guarded hsreg (.addPair hsreg hfirst hsecond _) _
  case MUL | MULS | MULSU | FMUL | FMULS | FMULSU =>
    exact .guarded hsreg (.multiply hsreg hfirst hsecond _ _ _) _
  case AND => exact h.storeLogic (congrArg₂ (· &&& ·) hfirst hsecond) rd
  case OR => exact h.storeLogic (congrArg₂ (· ||| ·) hfirst hsecond) rd
  case EOR => exact h.storeLogic (congrArg₂ (· ^^^ ·) hfirst hsecond) rd
  case ANDI => exact h.storeLogic (congrArg (· &&& BitVec.ofInt 8 k) hfirst) rd
  case CBR => exact h.storeLogic (congrArg (· &&& ~~~BitVec.ofInt 8 k) hfirst) rd
  case ORI | SBR => exact h.storeLogic (congrArg (· ||| BitVec.ofInt 8 k) hfirst) rd
  case TST => exact h.setNZVS hfirst rfl
  case CLR => exact h.storeLogic rfl rd
  case SER => exact h.setReg rfl rd
  case COM =>
    have hd : m.reg rd = m'.reg rd := hfirst
    simp only [Machine.step, hd]
    exact (h.storeLogic rfl rd).setFlag rfl Flag.C
  case LSL => exact .store (h.shiftLeftWith hfirst rfl) rd
  case ROL => exact .store (h.shiftLeftWith hfirst hc) rd
  case LSR => exact .store (h.shiftRightWith hfirst rfl) rd
  case ROR =>
    have hd : m.reg rd = m'.reg rd := hfirst
    simp only [Machine.step, hd, hc]
    exact .store (h.shiftRightWith rfl rfl) rd
  case ASR => exact .store (h.shiftRightWith hfirst (congrArg (· &&& 0x80#8) hfirst)) rd
  case SWAP =>
    have hd : m.reg rd = m'.reg rd := hfirst
    simp only [Machine.step, hd]
    exact h.setReg rfl rd
  case MOV => exact h.setReg hsecond rd
  case MOVW =>
    have hlow := h.setReg hfirst rd
    simp only [Machine.step]
    split
    · split
      · exact hlow.setReg hsecond (rd + 1)
      · exact hlow
    · exact h
  case LDI => exact h.setReg rfl rd
  case BSET | BCLR => exact h.setFlag rfl bit
  case BST => exact h.setFlag (congrArg (·.getLsbD bit) hfirst) Flag.T
  case BLD =>
    have hr : m.reg rr = m'.reg rr := hfirst
    simp only [Machine.step, hr, ht]
    exact h.setReg rfl rr
  all_goals exact absurd hop (by decide)

/-- The machine on which the self-check runs an instruction with the operands and the status register
of `m`. -/
def withOperandsOf (m : Machine) (i : Instruction) : Machine :=
  machineOf (operandRegisters i).1 (operandRegisters i).2 (m.reg (operandRegisters i).1)
    (m.reg (operandRegisters i).2) m.sreg

theorem reg_withOperandsOf (m : Machine) (i : Instruction) :
    (withOperandsOf m i).reg (operandRegisters i).1 = m.reg (operandRegisters i).1 ∧
      (withOperandsOf m i).reg (operandRegisters i).2 = m.reg (operandRegisters i).2 := by
  refine ⟨?_, Machine.reg_setReg_self _ _ _⟩
  by_cases hplace : State.place (operandRegisters i).2 = State.place (operandRegisters i).1
  · rw [← Machine.reg_eq_of_place _ hplace, ← Machine.reg_eq_of_place _ hplace]
    exact Machine.reg_setReg_self _ _ _
  · rw [withOperandsOf, machineOf, reg_setReg_of_ne _ _ hplace]
    exact Machine.reg_setReg_self _ _ _

/-- What an instruction writes on any machine, it writes on the machine of the self-check that has the
same operands and the same status register. -/
theorem writtenAlike_withOperandsOf (m : Machine) {i : Instruction} (hop : i.op ∈ Machine.modelled) :
    m.WrittenAlike (withOperandsOf m i) (m.step i).1 ((withOperandsOf m i).step i).1 :=
  writtenAlike_step hop rfl (reg_withOperandsOf m i).1.symm (reg_withOperandsOf m i).2.symm

end SelfCheck

end StackDepth
