import Mathlib
import StackDepth.Proofs.Instruction.Encodable
import StackDepth.Proofs.Transfer.Alu
import StackDepth.Transfer.Step

/-!
# Soundness of the arithmetic instructions

Every instruction that the concrete unit models keeps an abstract state above the machine: if the
state covers the machine before the instruction, it does so afterwards, in all registers and in all
eight flags. On states whose registers and flags are known, abstract and concrete execution coincide.

Main statements:

* `Machine.ShownBy.straight`: one case for each opcode, over the building blocks of the unit;
* `Machine.coveredBy_step_of_modelled`: the same for whole steps.
-/

namespace StackDepth

open Machine

variable {sharp : Prop} {m : Machine} {s : State}

/-! ### Products -/

theorem operand_eq (signed : Bool) (b : Byte) :
    State.operand signed b = if signed then b.toInt else (b.toNat : Int) := rfl

theorem shownBy_multiply (h : m.ShownBy sharp s) (i : Instruction) (signedA signedB fractional : Bool) :
    (m.multiply i signedA signedB fractional).ShownBy sharp
      (s.multiply i signedA signedB fractional) := by
  have ha := h.reg i.rd
  have hb := h.reg i.rr
  -- both sides write the same four places, so the values decide
  have hput : ∀ {lo hi c z : Tribyte} {p : BitVec 16} {x y : Bool},
      lo.Shows sharp (p.extractLsb' 0 8) → hi.Shows sharp (p.extractLsb' 8 8) →
      c.Tells sharp 0 x → z.Tells sharp 0 y →
      ((((m.setFlag Flag.C x).setFlag Flag.Z y).setReg 0 (p.extractLsb' 0 8)).setReg 1
        (p.extractLsb' 8 8)).ShownBy sharp
        ((((s.setReg 0 lo).setReg 1 hi).setFlag Flag.C c).setFlag Flag.Z z) := by
    intro lo hi c z p x y hlo hhi hc hz
    exact (((h.setReg hlo 0).setReg hhi 1).setFlag hc (by decide)).setFlag hz (by decide)
  simp only [State.multiply, Machine.multiply, operand_eq]
  by_cases hknown : ((s.reg i.rd).isKnown && (s.reg i.rr).isKnown) = true
  · rw [if_pos hknown]
    rw [Bool.and_eq_true] at hknown
    have hka : (s.reg i.rd).bits = m.reg i.rd :=
      Tribyte.Shows.bits_eq ⟨ha.1, fun _ => hknown.1⟩
    have hkb : (s.reg i.rr).bits = m.reg i.rr :=
      Tribyte.Shows.bits_eq ⟨hb.1, fun _ => hknown.2⟩
    rw [hka, hkb]
    exact hput (Tribyte.shows_ofByte _) (Tribyte.shows_ofByte _) (Tribyte.tells_ofBool _)
      (Tribyte.tells_ofBool _)
  · rw [if_neg hknown]
    by_cases hzero : s.reg i.rd = .zero ∨ s.reg i.rr = .zero
    · rw [if_pos hzero]
      have hfactor : m.reg i.rd = 0#8 ∨ m.reg i.rr = 0#8 := by
        rcases hzero with hz | hz
        · rw [hz] at ha
          exact .inl (Tribyte.Shows.bits_eq ⟨ha.1, fun _ => rfl⟩).symm
        · rw [hz] at hb
          exact .inr (Tribyte.Shows.bits_eq ⟨hb.1, fun _ => rfl⟩).symm
      have hproduct : BitVec.ofInt 16 ((if signedA then (m.reg i.rd).toInt else (m.reg i.rd).toNat) *
          (if signedB then (m.reg i.rr).toInt else (m.reg i.rr).toNat)) = 0#16 := by
        rcases hfactor with hz | hz
        · simp [hz]
        · simp [hz]
      rw [hproduct, show (if fractional then 0#16 <<< 1 else 0#16) = 0#16 by cases fractional <;> rfl]
      exact hput Tribyte.shows_zero Tribyte.shows_zero Tribyte.tells_no Tribyte.tells_yes
    · rw [if_neg hzero]
      have hopen : ¬ sharp := by
        intro hs
        exact hknown (by rw [ha.2 hs, hb.2 hs]; rfl)
      exact hput (Tribyte.shows_unknown hopen _) (Tribyte.shows_unknown hopen _)
        (Tribyte.tells_unknown hopen _ _) (Tribyte.tells_unknown hopen _ _)

/-! ### One case for each opcode -/

theorem Machine.ShownBy.store {p : State × Tribyte} {q : Machine × Byte}
    (h : q.1.ShownBy sharp p.1 ∧ p.2.Shows sharp q.2) (r : Nat) :
    (Machine.store r q).ShownBy sharp (State.store r p) :=
  h.1.setReg h.2 r

theorem Machine.ShownBy.storeLogic {v : Tribyte} {b : Byte} (h : m.ShownBy sharp s)
    (hv : v.Shows sharp b) (r : Nat) :
    (m.storeLogic r b).ShownBy sharp (s.storeLogic r v) :=
  (shownBy_logic h hv).setReg hv r

theorem shows_immediate (k : Int) : (State.immediate k).Shows sharp (BitVec.ofInt 8 k) :=
  Tribyte.shows_ofByte _

theorem inc_overflow (c : Byte) : (c + 1#8 == 0x80#8) = (c == 0x7F#8) := by
  revert c
  decide

theorem dec_overflow (c : Byte) : (c - 1#8 == 0x7F#8) = (c == 0x80#8) := by
  revert c
  decide

theorem topBit_eq (c : Byte) : c &&& 0x80#8 = if c.msb then 0x80#8 else 0#8 := by
  revert c
  decide

theorem Machine.reg_setReg_self (m : Machine) (r : Nat) (b : Byte) : (m.setReg r b).reg r = b := by
  rw [Machine.reg, Machine.setReg, Vector.get_eq_getElem, Vector.getElem_set_self]

theorem reg_setReg_of_ne (m : Machine) {r q : Nat} (b : Byte) (h : State.place r ≠ State.place q) :
    (m.setReg r b).reg q = m.reg q := by
  simp only [Machine.reg, Machine.setReg, Vector.get_eq_getElem]
  exact Vector.getElem_set_ne _ _ fun hval => h (Fin.ext hval)

theorem guarded_two {run : Machine} {r q : Nat} (hr : r < registerCount) (hq : q < registerCount) :
    m.guarded [r, q] run = (run, .done) := by
  unfold Machine.guarded
  rw [if_pos]
  simp only [List.all_cons, List.all_nil, Bool.and_true, Bool.and_eq_true, decide_eq_true_eq]
  exact ⟨hr, hq⟩

/-- Both halves of an even pair are registers. -/
theorem succ_lt_of_even {r : Nat} (hr : r < 32) (heven : r % 2 = 0) : r + 1 < registerCount := by
  show r + 1 < 32
  omega

/-- An instruction that the machine models is executed by it, and the abstract state that `straight`
leaves shows the machine that it leaves. -/
theorem Machine.ShownBy.straight (h : m.ShownBy sharp s) (i : Instruction)
    (hop : i.op ∈ Machine.modelled) (hi : i.Encodable) :
    ∃ n, m.step i = (n, .done) ∧ n.ShownBy sharp (s.straight i) := by
  obtain ⟨op, rd, rr, k, bit⟩ := i
  dsimp only at hop
  have hd := h.reg rd
  have hr := h.reg rr
  have hc := h.flag (show Flag.C < 8 by decide)
  have hk : (State.immediate k).Shows sharp (BitVec.ofInt 8 k) := shows_immediate k
  cases op
  case ADD => exact ⟨_, rfl, .store (shownBy_addWith h hd hr Tribyte.tells_no) rd⟩
  case ADC => exact ⟨_, rfl, .store (shownBy_addWith h hd hr hc) rd⟩
  case SUB => exact ⟨_, rfl, .store (shownBy_subWith h hd hr Tribyte.tells_no false) rd⟩
  case SUBI => exact ⟨_, rfl, .store (shownBy_subWith h hd hk Tribyte.tells_no false) rd⟩
  case SBC => exact ⟨_, rfl, .store (shownBy_subWith h hd hr hc true) rd⟩
  case SBCI => exact ⟨_, rfl, .store (shownBy_subWith h hd hk hc true) rd⟩
  case CP => exact ⟨_, rfl, (shownBy_subWith h hd hr Tribyte.tells_no false).1⟩
  case CPC => exact ⟨_, rfl, (shownBy_subWith h hd hr hc true).1⟩
  case CPI => exact ⟨_, rfl, (shownBy_subWith h hd hk Tribyte.tells_no false).1⟩
  case NEG =>
    exact ⟨_, rfl, .store (shownBy_subWith h Tribyte.shows_zero hd Tribyte.tells_no false) rd⟩
  case INC =>
    have hv := hd.inc.equal (Tribyte.shows_ofByte 0x80#8)
    rw [inc_overflow] at hv
    exact ⟨_, rfl, (shownBy_setNZVS h hd.inc hv).setReg hd.inc rd⟩
  case DEC =>
    have hv := hd.dec.equal (Tribyte.shows_ofByte 0x7F#8)
    rw [dec_overflow] at hv
    exact ⟨_, rfl, (shownBy_setNZVS h hd.dec hv).setReg hd.dec rd⟩
  case ADIW =>
    obtain ⟨-, -, hrd, heven, hlow, hhigh⟩ := hi
    dsimp only at hrd heven hlow hhigh
    exact ⟨_, guarded_two hrd (succ_lt_of_even hrd heven), shownBy_addPair h rd k (by omega)⟩
  case SBIW =>
    obtain ⟨-, -, hrd, heven, hlow, hhigh⟩ := hi
    dsimp only at hrd heven hlow hhigh
    have hwrap : wrap64 (-k) = -k := wrap64_of_small (-k) (by omega)
    exact ⟨_, guarded_two hrd (succ_lt_of_even hrd heven),
      shownBy_addPair h rd (wrap64 (-k)) (by rw [hwrap]; omega)⟩
  case MUL =>
    obtain ⟨-, hrd, hrr, -⟩ := hi
    exact ⟨_, guarded_two hrd hrr, shownBy_multiply h _ false false false⟩
  case MULS =>
    obtain ⟨-, hrd, hrr, -⟩ := hi
    exact ⟨_, guarded_two hrd hrr, shownBy_multiply h _ true true false⟩
  case MULSU =>
    obtain ⟨-, hrd, hrr, -⟩ := hi
    exact ⟨_, guarded_two hrd hrr, shownBy_multiply h _ true false false⟩
  case FMUL =>
    obtain ⟨-, hrd, hrr, -⟩ := hi
    exact ⟨_, guarded_two hrd hrr, shownBy_multiply h _ false false true⟩
  case FMULS =>
    obtain ⟨-, hrd, hrr, -⟩ := hi
    exact ⟨_, guarded_two hrd hrr, shownBy_multiply h _ true true true⟩
  case FMULSU =>
    obtain ⟨-, hrd, hrr, -⟩ := hi
    exact ⟨_, guarded_two hrd hrr, shownBy_multiply h _ true false true⟩
  case AND => exact ⟨_, rfl, h.storeLogic (hd.and hr) rd⟩
  case ANDI => exact ⟨_, rfl, h.storeLogic (hd.and hk) rd⟩
  case CBR => exact ⟨_, rfl, h.storeLogic (hd.and (Tribyte.shows_ofByte _)) rd⟩
  case OR => exact ⟨_, rfl, h.storeLogic (hd.or hr) rd⟩
  case ORI => exact ⟨_, rfl, h.storeLogic (hd.or hk) rd⟩
  case SBR => exact ⟨_, rfl, h.storeLogic (hd.or hk) rd⟩
  case EOR =>
    refine ⟨_, rfl, h.storeLogic ?_ rd⟩
    split
    · rename_i hsame
      dsimp only at hsame
      rw [hsame, BitVec.xor_self]
      exact Tribyte.shows_zero
    · exact hd.xor hr
  case TST => exact ⟨_, rfl, shownBy_logic h hd⟩
  case CLR => exact ⟨_, rfl, h.storeLogic Tribyte.shows_zero rd⟩
  case SER => exact ⟨_, rfl, h.setReg (Tribyte.shows_ofByte _) rd⟩
  case COM =>
    exact ⟨_, rfl, ((shownBy_logic h hd.not).setFlag Tribyte.tells_yes (by decide)).setReg hd.not rd⟩
  case LSL => exact ⟨_, rfl, .store (shownBy_shiftLeftWith h hd Tribyte.tells_no) rd⟩
  case ROL => exact ⟨_, rfl, .store (shownBy_shiftLeftWith h hd hc) rd⟩
  case LSR => exact ⟨_, rfl, .store (shownBy_shiftRightWith h hd Tribyte.tells_no) rd⟩
  case ROR => exact ⟨_, rfl, .store (shownBy_shiftRightWith h hd hc) rd⟩
  case ASR =>
    have hshift := shownBy_shiftRightWith h hd hd.msb
    rw [← topBit_eq] at hshift
    exact ⟨_, rfl, .store hshift rd⟩
  case SWAP => exact ⟨_, rfl, h.setReg hd.swap rd⟩
  case MOV => exact ⟨_, rfl, h.setReg hr rd⟩
  case MOVW =>
    obtain ⟨-, hrd, hrr, hevend, hevenr⟩ := hi
    dsimp only at hrd hrr hevend hevenr
    have hne : State.place rd ≠ State.place (rr + 1) := by
      intro hplace
      have hval := congrArg Fin.val hplace
      simp only [State.place, Fin.ofNat, registerCount] at hval
      omega
    have hlow := h.setReg hr rd
    have hhigh := hlow.reg (rr + 1)
    rw [reg_setReg_of_ne m _ hne] at hhigh
    refine ⟨_, ?_, hlow.setReg hhigh (rd + 1)⟩
    simp only [Machine.step]
    rw [if_pos ⟨succ_lt_of_even hrr hevenr, hrd⟩, if_pos (succ_lt_of_even hrd hevend)]
  case LDI => exact ⟨_, rfl, h.setReg hk rd⟩
  case BSET =>
    obtain ⟨-, hbit⟩ := hi
    exact ⟨_, rfl, h.setFlag Tribyte.tells_yes hbit⟩
  case BCLR =>
    obtain ⟨-, hbit⟩ := hi
    exact ⟨_, rfl, h.setFlag Tribyte.tells_no hbit⟩
  case BST =>
    obtain ⟨-, -, hbit⟩ := hi
    exact ⟨_, rfl, h.setFlag (hr.bit hbit) (by decide)⟩
  case BLD =>
    obtain ⟨-, -, hbit⟩ := hi
    exact ⟨_, rfl, h.setReg (hr.setBit (h.flag (show Flag.T < 8 by decide)) hbit) rr⟩
  all_goals exact absurd hop (by decide)

/-! ### Whole steps -/

/-- A modelled instruction neither branches nor skips. -/
theorem step_of_modelled (code : NextAddress) (s : State) (i : Instruction)
    (hop : i.op ∈ Machine.modelled) :
    s.step code i
      = (({ s with pc := s.pc + BitVec.ofNat 16 i.size } : State).straight i, .ok (.next none)) := by
  obtain ⟨op, rd, rr, k, bit⟩ := i
  dsimp only at hop
  cases op
  all_goals first
    | rfl
    | exact absurd hop (by decide)

/-- The state with the program counter behind an instruction. -/
def State.passed (s : State) (i : Instruction) : State :=
  { s with pc := s.pc + BitVec.ofNat 16 i.size }

theorem step_of_flagAction (code : NextAddress) (s : State) {i : Instruction} {n : Nat} {b : Bool}
    (hop : i.op.flagAction? = some (n, b)) :
    n < 8 ∧ s.step code i = ((s.passed i).setFlag n (.ofBool b), .ok (.next none)) := by
  obtain ⟨op, rd, rr, k, bit⟩ := i
  dsimp only at hop
  cases op
  all_goals cases hop <;> exact ⟨by decide, rfl⟩

theorem step_of_branchTest (code : NextAddress) (s : State) {i : Instruction} {n : Nat} {b : Bool}
    (hop : i.branchTest? = some (n, b)) :
    s.step code i =
      (((s.passed i).branch (if b then s.flag n else (s.flag n).not) (relativeTarget s.pc i.k)).1,
        .ok ((s.passed i).branch (if b then s.flag n else (s.flag n).not)
          (relativeTarget s.pc i.k)).2) := by
  rw [State.step]
  simp only [hop]
  rfl

theorem Machine.CoveredBy.shownBy (h : m.CoveredBy s)
    (hsharp : sharp → (∀ r : Fin registerCount, (s.regs.get r).isKnown = true) ∧ s.sreg.isKnown = true) :
    m.ShownBy sharp s :=
  ⟨fun r => ⟨h.1 r, fun hs => (hsharp hs).1 r⟩, ⟨h.2, fun hs => (hsharp hs).2⟩⟩

theorem Machine.ShownBy.coveredBy (h : m.ShownBy sharp s) : m.CoveredBy s :=
  ⟨fun r => (h.1 r).1, h.2.1⟩

/-- Executing a modelled instruction on an abstract state that covers a machine continues at the next
instruction without a second successor; the machine executes it too, and the state that is left covers
the machine that is left. If all registers and flags of the state were known, then they still are, and
they are those of the machine. -/
theorem Machine.coveredBy_step_of_modelled (h : m.CoveredBy s) (code : NextAddress) (i : Instruction)
    (hop : i.op ∈ Machine.modelled) (hi : i.Encodable) :
    ∃ t n, s.step code i = (t, .ok (.next none)) ∧ m.step i = (n, .done) ∧ n.CoveredBy t ∧
      ((∀ r : Fin registerCount, (s.regs.get r).isKnown = true) → s.sreg.isKnown = true →
        (∀ r : Fin registerCount,
          (t.regs.get r).isKnown = true ∧ (t.regs.get r).bits = n.regs.get r) ∧
        t.sreg.isKnown = true ∧ t.sreg.bits = n.sreg) := by
  have hshown : m.ShownBy
      ((∀ r : Fin registerCount, (s.regs.get r).isKnown = true) ∧ s.sreg.isKnown = true) s :=
    h.shownBy id
  obtain ⟨n, hn, hcover⟩ := Machine.ShownBy.straight
    (s := { s with pc := s.pc + BitVec.ofNat 16 i.size }) hshown i hop hi
  refine ⟨_, n, step_of_modelled code s i hop, hn, hcover.coveredBy, fun hregs hsreg => ?_⟩
  have hall := And.intro hregs hsreg
  refine ⟨fun r => ⟨(hcover.1 r).2 hall, ?_⟩, hcover.2.2 hall, ?_⟩
  · exact Tribyte.Shows.bits_eq ⟨(hcover.1 r).1, fun _ => (hcover.1 r).2 hall⟩
  · exact Tribyte.Shows.bits_eq ⟨hcover.2.1, fun _ => hcover.2.2 hall⟩

/-- The half-known register 17 covers a subtraction that comes out as zero. -/
theorem coveredBy_step_of_subtraction :
    (Machine.cleared.setReg 17 0x3A#8).CoveredBy (State.reset.setReg 17 ⟨0xF0#8, 0x30#8⟩) ∧
      ∃ t n,
        (State.reset.setReg 17 ⟨0xF0#8, 0x30#8⟩).step .ok { op := .SUBI, rd := 17, k := 0x3A }
          = (t, .ok (.next none)) ∧
        (Machine.cleared.setReg 17 0x3A#8).step { op := .SUBI, rd := 17, k := 0x3A } = (n, .done) ∧
        n.CoveredBy t := by
  have hcover :
      (Machine.cleared.setReg 17 0x3A#8).CoveredBy (State.reset.setReg 17 ⟨0xF0#8, 0x30#8⟩) :=
    ⟨by decide, by decide⟩
  obtain ⟨t, n, hstep, hdone, hafter, -⟩ := Machine.coveredBy_step_of_modelled hcover .ok
    { op := .SUBI, rd := 17, k := 0x3A } (by decide) ⟨rfl, by decide, by decide, by decide, by decide⟩
  exact ⟨hcover, t, n, hstep, hdone, hafter⟩

end StackDepth
