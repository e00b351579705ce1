import Mathlib
import StackDepth.Proofs.Transfer.Canonical
import StackDepth.Proofs.Transfer.Monotone
import StackDepth.Proofs.Transfer.Soundness
import StackDepth.Proofs.Tribyte.Precision

/-!
# Instructions with two names

Many instructions abbreviate another one with fixed operands. An abbreviation has a transfer function of
its own, so that it has to be shown that both leave the same state. A port can also be reached through its
data address, by an instruction that is two bytes longer. A shift to the left and a rotation are additions
of a register to itself; there the shift knows more, since it moves every bit on its own, while the sum of
two unknown bits could have had any carry.

* `Instruction.Abbreviates`, `Instruction.ThroughData`, `Instruction.Doubles`: the three families;
* `Tribyte.shiftLeft_below_add`, `State.shiftLeftWith_below`: a shift is below the sum, flags included;
* `State.shiftLeftWith_eq`: the two agree where the operand and the flags are known;
* `State.step_of_alias`: whole steps, for all families.
-/

namespace StackDepth

namespace Instruction

/-- The branches that are named for a flag, with the flag and the value on which they are taken. -/
def flagBranches : List (Opcode × Nat × Bool) := [
  (.BREQ, Flag.Z, true), (.BRNE, Flag.Z, false), (.BRCS, Flag.C, true), (.BRCC, Flag.C, false),
  (.BRLO, Flag.C, true), (.BRSH, Flag.C, false), (.BRMI, Flag.N, true), (.BRPL, Flag.N, false),
  (.BRLT, Flag.S, true), (.BRGE, Flag.S, false), (.BRHS, Flag.H, true), (.BRHC, Flag.H, false),
  (.BRTS, Flag.T, true), (.BRTC, Flag.T, false), (.BRVS, Flag.V, true), (.BRVC, Flag.V, false),
  (.BRIE, Flag.I, true), (.BRID, Flag.I, false)]

/-- The instructions that set or clear one flag, with the flag and its new value. -/
def flagSetters : List (Opcode × Nat × Bool) := [
  (.SEC, Flag.C, true), (.CLC, Flag.C, false), (.SEZ, Flag.Z, true), (.CLZ, Flag.Z, false),
  (.SEN, Flag.N, true), (.CLN, Flag.N, false), (.SEV, Flag.V, true), (.CLV, Flag.V, false),
  (.SES, Flag.S, true), (.CLS, Flag.S, false), (.SEH, Flag.H, true), (.CLH, Flag.H, false),
  (.SET, Flag.T, true), (.CLT, Flag.T, false), (.SEI, Flag.I, true), (.CLI, Flag.I, false)]

/-- The first instruction is another name of the second one. The operands are those of `i`. -/
inductive Abbreviates : Instruction → Instruction → Prop where
  | branch {op : Opcode} {n : Nat} {b : Bool} (h : (op, n, b) ∈ flagBranches) (i : Instruction) :
      Abbreviates { i with op } { i with op := if b then .BRBS else .BRBC, bit := n }
  | setter {op : Opcode} {n : Nat} {b : Bool} (h : (op, n, b) ∈ flagSetters) (i : Instruction) :
      Abbreviates { i with op } { i with op := if b then .BSET else .BCLR, bit := n }
  | test (i : Instruction) : Abbreviates { i with op := .TST } { i with op := .AND, rr := i.rd }
  | clear (i : Instruction) : Abbreviates { i with op := .CLR } { i with op := .EOR, rr := i.rd }
  | setBits (i : Instruction) : Abbreviates { i with op := .SBR } { i with op := .ORI }
  | clearBits (i : Instruction) :
      Abbreviates { i with op := .CBR } { i with op := .ANDI, k := 255 - i.k }
  | setAll (i : Instruction) : Abbreviates { i with op := .SER } { i with op := .LDI, k := 255 }

/-- The first instruction reaches the port of the second one through its data address. -/
inductive ThroughData : Instruction → Instruction → Prop where
  | load {i : Instruction} (h : 0 ≤ i.k ∧ i.k < portCount) :
      ThroughData { i with op := .LDS, k := i.k + portBase } { i with op := .IN }
  | store {i : Instruction} (h : 0 ≤ i.k ∧ i.k < portCount) :
      ThroughData { i with op := .STS, k := i.k + portBase } { i with op := .OUT }

/-- The first instruction shifts a register to the left, the second one adds the register to itself. -/
inductive Doubles : Instruction → Instruction → Prop where
  | shift (i : Instruction) : Doubles { i with op := .LSL } { i with op := .ADD, rr := i.rd }
  | rotate (i : Instruction) : Doubles { i with op := .ROL } { i with op := .ADC, rr := i.rd }

variable {op : Opcode} {n : Nat} {b : Bool}

theorem branchTest_flagBranches (h : (op, n, b) ∈ flagBranches) (i : Instruction) :
    ({ i with op } : Instruction).branchTest? = some (n, b) ∧ ({ i with op } : Instruction).size = 2 := by
  have hall : ∀ e ∈ flagBranches, e.1.flagTest? = some e.2 ∧ e.1.size = 2 := by decide
  obtain ⟨htest, hsize⟩ := hall _ h
  refine ⟨?_, hsize⟩
  -- the two branches on any flag are not in the list
  cases op
  case BRBS | BRBC => exact absurd htest (Option.some_ne_none _).symm
  all_goals exact htest

theorem flagAction_flagSetters (h : (op, n, b) ∈ flagSetters) (i : Instruction) :
    op.flagAction? = some (n, b) ∧ ({ i with op } : Instruction).size = 2 := by
  have hall : ∀ e ∈ flagSetters, e.1.flagAction? = some e.2 ∧ e.1.size = 2 := by decide
  exact hall _ h

/-- No branch that is named for a flag is missing. -/
theorem mem_flagBranches (h : op.flagTest? = some (n, b)) : (op, n, b) ∈ flagBranches := by
  cases op <;> cases h <;> decide

theorem mem_flagSetters (h : op.flagAction? = some (n, b)) : (op, n, b) ∈ flagSetters := by
  cases op <;> cases h <;> decide

end Instruction

/-! ### A shift and the sum with itself -/

namespace Tribyte

variable {r r' a v e : Tribyte} {n : Nat} {x : Bool} {results results' : Set Byte}

theorem add_self_add_unit (c : Byte) (x : Bool) :
    c + c + unit x = (c <<< 1) ||| BitVec.ofNat 8 x.toNat := by
  have hdouble : c + c = c <<< 1 := by
    rw [BitVec.shiftLeft_eq_mul_twoPow, show BitVec.twoPow 8 1 = 2 from rfl, mul_two]
  have hunit : unit x = BitVec.ofNat 8 x.toNat := by cases x <;> rfl
  -- bit 0 is free, so that nothing is carried
  rw [hdouble, hunit, BitVec.add_eq_or_of_and_eq_zero]
  refine BitVec.eq_of_getLsbD_eq fun n _ => ?_
  cases x <;> cases n <;> simp

/-- The best value for some of the results is below the best value for all of them. -/
theorem Summarizes.below (h : r.Summarizes results) (h' : r'.Summarizes results')
    (hsub : results ⊆ results') : r.Below r' := by
  rw [below_iff]
  intro n hn hknown
  have hall := (h'.settles_iff n hn _).mp ((Tribyte.settles_iff hn).mpr ⟨hknown, rfl⟩)
  exact (Tribyte.settles_iff hn).mp ((h.settles_iff n hn _).mpr fun c hc => hall c (hsub hc))

theorem shiftLeft_below_add (v : Tribyte) (he : e.Canonical) : (v.shiftLeft e).Below (v.add v e) := by
  refine (summarizes_shiftLeft v he).below (summarizes_add v v e) ?_
  rintro r ⟨c, x, hc, hx, rfl⟩
  exact ⟨c, c, x, hc, hc, hx, (add_self_add_unit c x).symm⟩

theorem shows_bits {sharp : Prop} (h : v.isKnown = true) : v.Shows sharp v.bits :=
  ⟨v.covers_floor, fun _ => h⟩

/-- The carry out of two equal bits is known only if the bit is. -/
theorem belowAt_carryOut_self (a r : Tribyte) : a.BelowAt (State.carryOut a a r) 0 := by
  simp only [BelowAt, State.carryOut, Tribyte.and, Tribyte.or, Tribyte.not, make, Tribyte.bits, zeros,
    BitVec.getLsbD_and, BitVec.getLsbD_or, BitVec.getLsbD_not]
  generalize a.known.getLsbD 0 = p, a.held.getLsbD 0 = q, r.known.getLsbD 0 = s, r.held.getLsbD 0 = t
  revert p q s t
  decide

/-- The overflow of a sum of two equal bits is known only if the bit and the result are, and then it says
whether they differ. -/
theorem BelowAt.overflow_self (h : r.BelowAt r' 0) (a : Tribyte) :
    (r.xor a).BelowAt (((a.and a).and r'.not).or ((a.not.and a.not).and r')) 0 := by
  simp only [BelowAt, Tribyte.and, Tribyte.or, Tribyte.not, Tribyte.xor, make, Tribyte.bits, zeros,
    BitVec.getLsbD_and, BitVec.getLsbD_or, BitVec.getLsbD_not, BitVec.getLsbD_xor] at h ⊢
  generalize a.known.getLsbD 0 = p, a.held.getLsbD 0 = q, r.known.getLsbD 0 = s, r.held.getLsbD 0 = t,
    r'.known.getLsbD 0 = s', r'.held.getLsbD 0 = t' at h ⊢
  revert p q s t s' t'
  decide

theorem Canonical.and_self (h : v.Canonical) : v.and v = v := by
  refine Canonical.eq_of_covers (canonical_make _ _) h fun c => ?_
  simp only [covers_iff, Tribyte.and, make, Tribyte.bits, zeros, BitVec.getLsbD_and, BitVec.getLsbD_or,
    BitVec.getLsbD_not]
  refine forall₂_congr fun n hn => ?_
  generalize v.known.getLsbD n = p, v.held.getLsbD n = q, c.getLsbD n = t
  simp only [hn, decide_true]
  revert p q t
  decide

theorem Canonical.canon_eq (h : v.Canonical) : v.canon = v := by
  refine Canonical.eq_of_covers (canonical_make _ _) h fun c => ?_
  simp only [Covers, canon, make, Tribyte.bits, BitVec.and_assoc, BitVec.and_self]

end Tribyte

open Tribyte

namespace State

variable {s : State} {v c : Tribyte} {x : Bool} {i j : Instruction}

/-- The flags and the result of a shift are below those of the sum of the operand and itself. -/
theorem shiftLeftWith_below (s : State) (v : Tribyte) (hc : c.Canonical) :
    ResultBelow (s.shiftLeftWith v c) (s.addWith v v c) := by
  have hr := shiftLeft_below_add v hc
  have hoverflow := (hr.bit (show 7 < 8 by decide)).overflow_self (v.bit 7)
  have hflags := ((Below.refl s).setFlag (belowAt_carryOut_self (v.bit 3) ((v.add v c).bit 3))
    (show Flag.H < 8 by decide)).setFlag (belowAt_carryOut_self (v.bit 7) ((v.add v c).bit 7))
    (show Flag.C < 8 by decide)
  exact ⟨hflags.setNZVS hr hoverflow, hr⟩

/-- A sum writes nothing but the status register. -/
theorem addWith_fst (s : State) (a b c : Tribyte) :
    (s.addWith a b c).1 = { s with sreg := (s.addWith a b c).1.sreg } := by
  simp only [State.addWith, State.setNZVS, State.setFlag]

theorem shiftLeftWith_fst (s : State) (v c : Tribyte) :
    (s.shiftLeftWith v c).1 = { s with sreg := (s.shiftLeftWith v c).1.sreg } := by
  simp only [State.shiftLeftWith, State.setNZVS, State.setFlag]

/-- The flags of a sum do not depend on the registers. -/
theorem sreg_addWith (s : State) (regs : Vector Tribyte registerCount) (a b c : Tribyte) :
    (({ s with regs } : State).addWith a b c).1.sreg = (s.addWith a b c).1.sreg := by
  simp only [State.addWith, State.setNZVS, State.setFlag]

/-- A sum of known operands is known, and its flags are if the others were. The registers do not matter,
so that they may be taken as known too. -/
theorem isKnown_addWith (hs : s.sreg.isKnown = true) (hv : v.isKnown = true) (hc : c.Tells True 0 x) :
    (s.addWith v v c).1.sreg.isKnown = true ∧ (s.addWith v v c).2.isKnown = true := by
  have hshown : ({ Machine.cleared with sreg := s.sreg.bits } : Machine).ShownBy True
      { s with regs := .replicate registerCount .zero } := by
    refine ⟨fun r => ?_, shows_bits hs⟩
    rw [Machine.cleared, Vector.get_replicate, Vector.get_replicate]
    exact shows_zero
  obtain ⟨hflags, hresult⟩ := shownBy_addWith hshown (shows_bits hv) (shows_bits hv) hc
  have hsreg := hflags.2.2 trivial
  rw [sreg_addWith] at hsreg
  exact ⟨hsreg, hresult.2 trivial⟩

/-- On known operands and flags a shift is the sum of the operand and itself. -/
theorem shiftLeftWith_eq (hs : s.sreg.isKnown = true) (hv : v.isKnown = true) (hc : c.Canonical)
    (hknown : c.Tells True 0 x) : s.shiftLeftWith v c = s.addWith v v c := by
  obtain ⟨hflags, hresult⟩ := s.shiftLeftWith_below v hc
  obtain ⟨hflags', hresult'⟩ := isKnown_addWith hs hv hknown
  refine Prod.ext ?_ (hresult.eq_of_isKnown hresult')
  rw [shiftLeftWith_fst, addWith_fst, hflags.sreg.eq_of_isKnown hflags']

/-- Storing the value that a register has changes nothing. -/
theorem setReg_reg (hs : s.Canonical) (r : Nat) : s.setReg r (s.reg r) = s := by
  rw [State.setReg, (hs.reg r).canon_eq]
  refine State.ext rfl rfl rfl rfl ?_
  exact Vector.set_getElem_self (place_lt r)

/-! ### Whole steps -/

theorem passed_congr (s : State) (h : i.size = j.size) : s.passed i = s.passed j := by
  rw [State.passed, State.passed, h]

theorem step_of_abbreviates (hs : s.Canonical) (code : NextAddress) (h : i.Abbreviates j) :
    s.step code i = s.step code j := by
  cases h with
  | @branch op n b h i =>
    obtain ⟨htest, hsize⟩ := Instruction.branchTest_flagBranches h i
    have htest' : ({ i with op := if b then .BRBS else .BRBC, bit := n } : Instruction).branchTest? =
        some (n, b) := by
      cases b <;> rfl
    rw [step_of_branchTest code s htest, step_of_branchTest code s htest', passed_congr s]
    rw [hsize]
    cases b <;> rfl
  | @setter op n b h i =>
    obtain ⟨haction, hsize⟩ := Instruction.flagAction_flagSetters h i
    rw [(step_of_flagAction code s haction).2]
    cases b with
    | false => rw [passed_congr s (j := { i with op := .BCLR, bit := n }) hsize]; rfl
    | true => rw [passed_congr s (j := { i with op := .BSET, bit := n }) hsize]; rfl
  | test i =>
    have hself : (s.reg i.rd).and (s.reg i.rd) = s.reg i.rd := (hs.reg i.rd).and_self
    have hlogic : ((s.passed { i with op := .TST }).logic (s.reg i.rd)).Canonical :=
      Canonical.logic hs (hs.reg i.rd)
    show (_, _) = ((s.passed { i with op := .TST }).storeLogic i.rd ((s.reg i.rd).and (s.reg i.rd)), _)
    rw [hself]
    exact congrArg (·, _) (setReg_reg hlogic i.rd).symm
  | clear i =>
    have hzero : (if i.rd = i.rd then Tribyte.zero else (s.reg i.rd).xor (s.reg i.rd)) = .zero :=
      if_pos rfl
    exact congrArg (fun v => ((s.passed { i with op := .CLR }).storeLogic i.rd v, _)) hzero.symm
  | setBits i => rfl
  | clearBits i =>
    have hcomplement : BitVec.ofInt 8 (255 - i.k) = ~~~(BitVec.ofInt 8 i.k) := by
      apply BitVec.eq_of_toNat_eq
      rw [BitVec.toNat_not, BitVec.toNat_ofInt, BitVec.toNat_ofInt]
      omega
    exact congrArg (fun c => ((s.passed { i with op := .CBR }).storeLogic i.rd
      ((s.reg i.rd).and (.ofByte c)), _)) hcomplement.symm
  | setAll i => rfl

/-- The data addresses of the ports lie behind those of the registers. -/
theorem portAddress {a : Int} (h : 0 ≤ a ∧ a < portCount) :
    ¬(0 ≤ a + portBase ∧ a + portBase < registerCount) ∧
      portBase ≤ a + portBase ∧ a + portBase < portBase + portCount := by
  simp only [portCount, portBase, registerCount] at *
  omega

theorem data_port (s : State) {a : Int} (h : 0 ≤ a ∧ a < portCount) :
    s.data (a + portBase) = s.port a := by
  obtain ⟨hregister, hport⟩ := portAddress h
  rw [State.data, if_neg hregister, if_pos hport, Int.add_sub_cancel]

theorem setData_port (s : State) {a : Int} (h : 0 ≤ a ∧ a < portCount) (v : Tribyte) :
    s.setData (a + portBase) v = s.setPort a v := by
  obtain ⟨hregister, hport⟩ := portAddress h
  rw [State.setData, if_neg hregister, if_pos hport, Int.add_sub_cancel]

theorem setPort_goto (s : State) (pc : Address) (a : Int) (v : Tribyte) :
    ({ s with pc } : State).setPort a v = { s.setPort a v with pc } := by
  simp only [State.setPort]
  split
  · rfl
  · split
    · rfl
    · split <;> rfl

theorem step_of_throughData (s : State) (code : NextAddress) (h : i.ThroughData j) :
    s.step code i =
      ({ (s.step code j).1 with pc := (s.step code j).1.pc + 2#16 }, (s.step code j).2) := by
  have hfour : s.pc + 4#16 = s.pc + 2#16 + 2#16 := by rw [BitVec.add_assoc]; rfl
  cases h with
  | @load i h =>
    show (({ s with pc := s.pc + 4#16 } : State).setReg i.rd (s.data (i.k + portBase)), _) =
      (({ s with pc := s.pc + 2#16 + 2#16 } : State).setReg i.rd (s.port i.k), _)
    rw [data_port s h, hfour]
    rfl
  | @store i h =>
    have hout : (s.step code { i with op := .OUT }).1 =
        { s.setPort i.k (s.reg i.rr) with pc := s.pc + 2#16 } := setPort_goto s _ i.k _
    show (({ s with pc := s.pc + 4#16 } : State).setData (i.k + portBase) (s.reg i.rr), _) = _
    rw [hout, setData_port _ h, setPort_goto, hfour]
    rfl

theorem step_of_doubles (hs : s.Canonical) (code : NextAddress) (h : i.Doubles j) :
    (s.step code i).2 = (s.step code j).2 ∧ (s.step code i).1.Below (s.step code j).1 ∧
      ((s.reg i.rd).isKnown = true → s.sreg.isKnown = true → s.step code i = s.step code j) := by
  cases h with
  | shift i =>
    refine ⟨rfl, ?_, fun hreg hsreg => ?_⟩
    · exact ((s.passed { i with op := .LSL }).shiftLeftWith_below (s.reg i.rd) canonical_no).store i.rd
    · have hresult : (s.passed { i with op := .LSL }).shiftLeftWith (s.reg i.rd) .no =
          (s.passed { i with op := .LSL }).addWith (s.reg i.rd) (s.reg i.rd) .no :=
        shiftLeftWith_eq hsreg hreg canonical_no tells_no
      exact congrArg (fun p => (State.store i.rd p, _)) hresult
  | rotate i =>
    have hcarry : (s.flag Flag.C).Canonical := hs.flag (by decide)
    refine ⟨rfl, ?_, fun hreg hsreg => ?_⟩
    · exact ((s.passed { i with op := .ROL }).shiftLeftWith_below (s.reg i.rd) hcarry).store i.rd
    · have hknown : (s.flag Flag.C).Tells True 0 (s.sreg.bits.getLsbD Flag.C) :=
        (shows_bits hsreg).bit (by decide)
      have hresult : (s.passed { i with op := .ROL }).shiftLeftWith (s.reg i.rd) (s.flag Flag.C) =
          (s.passed { i with op := .ROL }).addWith (s.reg i.rd) (s.reg i.rd) (s.flag Flag.C) :=
        shiftLeftWith_eq hsreg hreg hcarry hknown
      exact congrArg (fun p => (State.store i.rd p, _)) hresult

/-- An abbreviation has the effect of the instruction it abbreviates and leaves the same state. Reading or
writing a port through its data address differs only in the program counter, by two bytes. A shift to the
left has the effect of adding the register to itself; it leaves a state below the one of the sum, and the
same state if the register and all flags are known. -/
theorem step_of_alias (hs : s.Canonical) (code : NextAddress) :
    (∀ i j : Instruction, i.Abbreviates j → s.step code i = s.step code j) ∧
    (∀ i j : Instruction, i.ThroughData j → s.step code i =
      ({ (s.step code j).1 with pc := (s.step code j).1.pc + 2#16 }, (s.step code j).2)) ∧
    (∀ i j : Instruction, i.Doubles j →
      (s.step code i).2 = (s.step code j).2 ∧ (s.step code i).1.Below (s.step code j).1 ∧
        ((s.reg i.rd).isKnown = true → s.sreg.isKnown = true → s.step code i = s.step code j)) :=
  ⟨fun _ _ h => step_of_abbreviates hs code h, fun _ _ h => step_of_throughData s code h,
    fun _ _ h => step_of_doubles hs code h⟩

/-- With `0011....` in the register, a shift knows that the result is `011....0`, and the sum leaves its
lowest bit open. -/
theorem step_of_alias_of_half_known :
    (reset.setReg 17 ⟨0xF0#8, 0x30#8⟩).Canonical ∧
      ((reset.setReg 17 ⟨0xF0#8, 0x30#8⟩).step .ok { op := .LSL, rd := 17 }).1.Below
        ((reset.setReg 17 ⟨0xF0#8, 0x30#8⟩).step .ok { op := .ADD, rd := 17, rr := 17 }).1 ∧
      ((reset.setReg 17 ⟨0xF0#8, 0x30#8⟩).step .ok { op := .LSL, rd := 17 }).1.reg 17 =
        ⟨0xE1#8, 0x60#8⟩ ∧
      ((reset.setReg 17 ⟨0xF0#8, 0x30#8⟩).step .ok { op := .ADD, rd := 17, rr := 17 }).1.reg 17 =
        ⟨0xE0#8, 0x60#8⟩ := by
  have hcanonical : (reset.setReg 17 ⟨0xF0#8, 0x30#8⟩).Canonical :=
    canonical_reset.setReg 17 _
  have hdoubles := (step_of_alias hcanonical .ok).2.2 _ _ (.shift { op := .LSL, rd := 17 })
  exact ⟨hcanonical, hdoubles.2.1, by decide, by decide⟩

end State

end StackDepth
