import Mathlib
import StackDepth.Proofs.Assembly.Ranges
import StackDepth.Proofs.Tribyte.Order
import StackDepth.State.Interrupt
import StackDepth.Transfer.Step

/-!
# Executing an instruction is monotone

A state is below another if both stand at the same instruction and every tracked value of the first is
below the one of the second. Executing an instruction on both fails on both or on neither. It has the
same effect on both, except that a condition may be settled in the smaller state only; then the smaller
state goes one of the two ways that the larger one keeps open.

Main statements:

* `State.Below.straight`: one case for each opcode, over the building blocks of the unit;
* `State.Below.branch`: what becomes of a condition that only the smaller state settles;
* `State.Below.step`: whole steps;
* `State.Below.interrupts`: an interrupt of the smaller state is one of the larger;
* `State.step_monotone`: the two of them, in terms of what a step leaves.
-/

namespace StackDepth

namespace State

/-- The states stand at the same instruction, and every byte that a tracked value of `s` covers is
covered by the same value of `t`. -/
structure Below (s t : State) : Prop where
  /-- The program counters agree. -/
  pc : s.pc = t.pc
  /-- The status register of `t` covers what that of `s` covers. -/
  sreg : s.sreg.Below t.sreg
  /-- So does its mask of the external interrupts. -/
  eimsk : s.eimsk.Below t.eimsk
  /-- So does its mask of the timer interrupts. -/
  timsk : s.timsk.Below t.timsk
  /-- So do its general registers, one by one. -/
  regs : ∀ r : Fin registerCount, (s.regs.get r).Below (t.regs.get r)

variable {s t : State} {a a' b b' c c' v v' : Tribyte} {n : Nat}

/-! ### Reading and writing -/

theorem Below.refl (s : State) : s.Below s := ⟨rfl, .refl _, .refl _, .refl _, fun _ => .refl _⟩

theorem Below.goto (h : s.Below t) (pc : Address) : ({ s with pc } : State).Below { t with pc } :=
  { h with pc := rfl }

theorem Below.reg (h : s.Below t) (r : Nat) : (s.reg r).Below (t.reg r) := h.regs (place r)

theorem Below.flag (h : s.Below t) (hn : n < 8) : (s.flag n).BelowAt (t.flag n) 0 := h.sreg.bit hn

theorem Below.port (h : s.Below t) (k : Int) : (s.port k).Below (t.port k) := by
  unfold State.port
  split
  · exact h.sreg
  · split
    · exact h.eimsk
    · split
      · exact h.timsk
      · exact .refl _

theorem Below.data (h : s.Below t) (k : Int) : (s.data k).Below (t.data k) := by
  unfold State.data
  split
  · exact h.reg _
  · split
    · exact h.port _
    · exact .refl _

theorem Below.setReg (h : s.Below t) (hv : v.Below v') (r : Nat) :
    (s.setReg r v).Below (t.setReg r v') := by
  refine { h with regs := fun q => ?_ }
  simp only [State.setReg, Vector.get_eq_getElem]
  by_cases hq : place r = q
  · subst hq
    rw [Vector.getElem_set_self, Vector.getElem_set_self]
    exact hv.canon
  · have hne : (place r).val ≠ q.val := fun hval => hq (Fin.ext hval)
    rw [Vector.getElem_set_ne _ _ hne, Vector.getElem_set_ne _ _ hne]
    exact h.regs q

theorem Below.setFlag (h : s.Below t) (hv : v.BelowAt v' 0) (hn : n < 8) :
    (s.setFlag n v).Below (t.setFlag n v') :=
  { h with sreg := h.sreg.setBit hv hn }

theorem Below.setPort (h : s.Below t) (hv : v.Below v') (k : Int) :
    (s.setPort k v).Below (t.setPort k v') := by
  unfold State.setPort
  split
  · exact { h with sreg := hv.canon }
  · split
    · exact { h with eimsk := hv.canon }
    · split
      · exact { h with timsk := hv.canon }
      · exact h

theorem Below.setData (h : s.Below t) (hv : v.Below v') (k : Int) :
    (s.setData k v).Below (t.setData k v') := by
  unfold State.setData
  split
  · exact h.setReg hv _
  · split
    · exact h.setPort hv _
    · exact h

/-! ### The building blocks of the unit -/

theorem carryOut_below {r r' : Tribyte} (ha : a.BelowAt a' 0) (hb : b.BelowAt b' 0)
    (hr : r.BelowAt r' 0) : (carryOut a b r).BelowAt (carryOut a' b' r') 0 :=
  ((ha.and (by decide) hb).or (by decide) (hb.and (by decide) hr.not)).or (by decide)
    (hr.not.and (by decide) ha)

theorem borrowOut_below {r r' : Tribyte} (ha : a.BelowAt a' 0) (hb : b.BelowAt b' 0)
    (hr : r.BelowAt r' 0) : (borrowOut a b r).BelowAt (borrowOut a' b' r') 0 :=
  ((ha.not.and (by decide) hb).or (by decide) (hb.and (by decide) hr)).or (by decide)
    (hr.and (by decide) ha.not)

theorem Below.setNZVS (h : s.Below t) (ha : a.Below a') (hv : v.BelowAt v' 0) :
    (s.setNZVS a v).Below (t.setNZVS a' v') := by
  have htop := ha.bit (show 7 < 8 by decide)
  exact (((h.setFlag htop (by decide)).setFlag ha.isZero (by decide)).setFlag hv (by decide)).setFlag
    (htop.xor hv) (by decide)

theorem Below.logic (h : s.Below t) (hv : v.Below v') : (s.logic v).Below (t.logic v') :=
  h.setNZVS hv (.refl _ _)

/-- A state with a result beside it. -/
def ResultBelow (p q : State × Tribyte) : Prop := p.1.Below q.1 ∧ p.2.Below q.2

theorem Below.addWith (h : s.Below t) (ha : a.Below a') (hb : b.Below b') (hc : c.BelowAt c' 0) :
    ResultBelow (s.addWith a b c) (t.addWith a' b' c') := by
  have hr := ha.add hb hc
  have htop := hr.bit (show 7 < 8 by decide)
  have hatop := ha.bit (show 7 < 8 by decide)
  have hbtop := hb.bit (show 7 < 8 by decide)
  have hhalf := carryOut_below (ha.bit (show 3 < 8 by decide)) (hb.bit (show 3 < 8 by decide))
    (hr.bit (show 3 < 8 by decide))
  have hoverflow := ((hatop.and (by decide) hbtop).and (by decide) htop.not).or (by decide)
    ((hatop.not.and (by decide) hbtop.not).and (by decide) htop)
  exact ⟨((h.setFlag hhalf (by decide)).setFlag (carryOut_below hatop hbtop htop)
    (by decide)).setNZVS hr hoverflow, hr⟩

theorem Below.subWith (h : s.Below t) (ha : a.Below a') (hb : b.Below b') (hc : c.BelowAt c' 0)
    (keepZ : Bool) : ResultBelow (s.subWith a b c keepZ) (t.subWith a' b' c' keepZ) := by
  have hr := ha.sub hb hc
  have htop := hr.bit (show 7 < 8 by decide)
  have hatop := ha.bit (show 7 < 8 by decide)
  have hbtop := hb.bit (show 7 < 8 by decide)
  have hhalf := borrowOut_below (ha.bit (show 3 < 8 by decide)) (hb.bit (show 3 < 8 by decide))
    (hr.bit (show 3 < 8 by decide))
  have hoverflow := ((hatop.and (by decide) hbtop.not).and (by decide) htop.not).or (by decide)
    ((hatop.not.and (by decide) hbtop).and (by decide) htop)
  have hflags := ((h.setFlag hhalf (show Flag.H < 8 by decide)).setFlag
    (borrowOut_below hatop hbtop htop) (show Flag.C < 8 by decide)).setNZVS hr hoverflow
  refine ⟨?_, hr⟩
  cases keepZ with
  | false => exact hflags
  | true => exact hflags.setFlag (hr.isZero.and (by decide) (h.flag (by decide))) (by decide)

theorem Below.shiftLeftWith (h : s.Below t) (hv : v.Below v') (hc : c.BelowAt c' 0) :
    ResultBelow (s.shiftLeftWith v c) (t.shiftLeftWith v' c') := by
  have hr := hv.shiftLeft hc
  have htop := hv.bit (show 7 < 8 by decide)
  exact ⟨((h.setFlag (hv.bit (by decide)) (by decide)).setFlag htop (by decide)).setNZVS hr
    ((hr.bit (by decide)).xor htop), hr⟩

theorem Below.shiftRightWith (h : s.Below t) (hv : v.Below v') (hc : c.BelowAt c' 0) :
    ResultBelow (s.shiftRightWith v c) (t.shiftRightWith v' c') := by
  have hr := hv.shiftRight hc
  have hlow := hv.bit (show 0 < 8 by decide)
  exact ⟨(h.setFlag hlow (by decide)).setNZVS hr ((hr.bit (by decide)).xor hlow), hr⟩

theorem Below.addPair (h : s.Below t) (rd : Nat) (k : Int) :
    (s.addPair rd k).Below (t.addPair rd k) := by
  obtain ⟨hlo, hhi⟩ := (h.reg rd).addWord (h.reg (rd + 1)) k
  have htop := (h.reg (rd + 1)).bit (show 7 < 8 by decide)
  have htop' := hhi.bit (show 7 < 8 by decide)
  have hzero := hlo.isZero.and (by decide) hhi.isZero
  have hv := Tribyte.BelowAt.ite (q := 0 ≤ k) (htop.not.and (by decide) htop')
    (htop.and (by decide) htop'.not)
  have hc := Tribyte.BelowAt.ite (q := 0 ≤ k) (htop'.not.and (by decide) htop)
    (htop'.and (by decide) htop.not)
  exact ((((((h.setFlag hv (by decide)).setFlag htop' (by decide)).setFlag hzero (by decide)).setFlag
    hc (by decide)).setFlag (htop'.xor hv) (by decide)).setReg hlo rd).setReg hhi (rd + 1)

theorem Below.movePointer (h : s.Below t) (r : Nat) (k : Int) :
    (s.movePointer r k).Below (t.movePointer r k) := by
  obtain ⟨hlo, hhi⟩ := (h.reg r).addWord (h.reg (r + 1)) k
  exact (h.setReg hlo r).setReg hhi (r + 1)

/-! ### Products -/

/-- A product writes the pair and two flags, whatever is known of it. -/
theorem exists_multiply (s : State) (i : Instruction) (signedA signedB fractional : Bool) :
    ∃ lo hi c z, s.multiply i signedA signedB fractional =
      (((s.setReg 0 lo).setReg 1 hi).setFlag Flag.C c).setFlag Flag.Z z := by
  unfold State.multiply
  dsimp only
  split
  · exact ⟨_, _, _, _, rfl⟩
  · split
    · exact ⟨_, _, _, _, rfl⟩
    · exact ⟨_, _, _, _, rfl⟩

/-- What a product with a known zero leaves. -/
theorem multiply_of_zero {i : Instruction} (signedA signedB fractional : Bool)
    (hzero : s.reg i.rd = .zero ∨ s.reg i.rr = .zero) :
    s.multiply i signedA signedB fractional =
      (((s.setReg 0 .zero).setReg 1 .zero).setFlag Flag.C .no).setFlag Flag.Z .yes := by
  simp only [State.multiply]
  by_cases hknown : ((s.reg i.rd).isKnown && (s.reg i.rr).isKnown) = true
  · rw [if_pos hknown]
    have hproduct : BitVec.ofInt 16
        (operand signedA (s.reg i.rd).bits * operand signedB (s.reg i.rr).bits) = 0#16 := by
      have hnone : ∀ signed, operand signed Tribyte.zero.bits = 0 := by decide
      rcases hzero with hz | hz
      · rw [hz, hnone, zero_mul]
        rfl
      · rw [hz, hnone, mul_zero]
        rfl
    rw [hproduct]
    cases fractional <;> rfl
  · rw [if_neg hknown, if_pos hzero]

theorem Below.multiply (h : s.Below t) (i : Instruction) (signedA signedB fractional : Bool) :
    (s.multiply i signedA signedB fractional).Below (t.multiply i signedA signedB fractional) := by
  have hput : ∀ {lo lo' hi hi' c c' z z' : Tribyte}, lo.Below lo' → hi.Below hi' → c.BelowAt c' 0 →
      z.BelowAt z' 0 → ((((s.setReg 0 lo).setReg 1 hi).setFlag Flag.C c).setFlag Flag.Z z).Below
        ((((t.setReg 0 lo').setReg 1 hi').setFlag Flag.C c').setFlag Flag.Z z') := by
    intro lo lo' hi hi' c c' z z' hlo hhi hc hz
    exact (((h.setReg hlo 0).setReg hhi 1).setFlag hc (by decide)).setFlag hz (by decide)
  by_cases hzero : t.reg i.rd = .zero ∨ t.reg i.rr = .zero
  · have hzero' : s.reg i.rd = .zero ∨ s.reg i.rr = .zero := by
      rcases hzero with hz | hz
      · exact .inl (((h.reg i.rd).eq_of_isKnown (by rw [hz]; rfl)).trans hz)
      · exact .inr (((h.reg i.rr).eq_of_isKnown (by rw [hz]; rfl)).trans hz)
    rw [multiply_of_zero _ _ _ hzero, multiply_of_zero _ _ _ hzero']
    exact hput (.refl _) (.refl _) (.refl _ _) (.refl _ _)
  · by_cases hknown : ((t.reg i.rd).isKnown && (t.reg i.rr).isKnown) = true
    · have hknown' := hknown
      rw [Bool.and_eq_true] at hknown'
      simp only [State.multiply, (h.reg i.rd).eq_of_isKnown hknown'.1,
        (h.reg i.rr).eq_of_isKnown hknown'.2]
      rw [if_pos hknown, if_pos hknown]
      exact hput (.refl _) (.refl _) (.refl _ _) (.refl _ _)
    · -- the larger product is unknown, and everything is below that
      have hopen : t.multiply i signedA signedB fractional =
          (((t.setReg 0 .unknown).setReg 1 .unknown).setFlag Flag.C .unknown).setFlag Flag.Z
            .unknown := by
        simp only [State.multiply]
        rw [if_neg hknown, if_neg hzero]
      obtain ⟨lo, hi, c, z, hproduct⟩ := s.exists_multiply i signedA signedB fractional
      rw [hopen, hproduct]
      exact hput lo.below_unknown hi.below_unknown (c.belowAt_unknown 0) (z.belowAt_unknown 0)

/-! ### One case for each opcode -/

theorem ResultBelow.store {p q : State × Tribyte} (h : ResultBelow p q) (r : Nat) :
    (State.store r p).Below (State.store r q) :=
  h.1.setReg h.2 r

theorem Below.storeLogic (h : s.Below t) (hv : v.Below v') (r : Nat) :
    (s.storeLogic r v).Below (t.storeLogic r v') :=
  (h.logic hv).setReg hv r

theorem Below.straight (h : s.Below t) {i : Instruction} (hi : i.InRange) :
    (s.straight i).Below (t.straight i) := by
  obtain ⟨op, rd, rr, k, bit⟩ := i
  have hd := h.reg rd
  have hr := h.reg rr
  have hc := h.flag (show Flag.C < 8 by decide)
  have hk : (immediate k).Below (immediate k) := .refl _
  have hno : Tribyte.no.BelowAt .no 0 := .refl _ _
  cases op
  case ADD => exact (h.addWith hd hr hno).store rd
  case ADC => exact (h.addWith hd hr hc).store rd
  case SUB => exact (h.subWith hd hr hno false).store rd
  case SUBI => exact (h.subWith hd hk hno false).store rd
  case SBC => exact (h.subWith hd hr hc true).store rd
  case SBCI => exact (h.subWith hd hk hc true).store rd
  case NEG => exact (h.subWith (.refl .zero) hd hno false).store rd
  case CP => exact (h.subWith hd hr hno false).1
  case CPC => exact (h.subWith hd hr hc true).1
  case CPI => exact (h.subWith hd hk hno false).1
  case INC => exact (h.setNZVS hd.inc (hd.inc.equal (.refl _))).setReg hd.inc rd
  case DEC => exact (h.setNZVS hd.dec (hd.dec.equal (.refl _))).setReg hd.dec rd
  case ADIW => exact h.addPair rd k
  case SBIW => exact h.addPair rd (wrap64 (-k))
  case MUL => exact h.multiply _ false false false
  case MULS => exact h.multiply _ true true false
  case MULSU => exact h.multiply _ true false false
  case FMUL => exact h.multiply _ false false true
  case FMULS => exact h.multiply _ true true true
  case FMULSU => exact h.multiply _ true false true
  case AND => exact h.storeLogic (hd.and hr) rd
  case ANDI => exact h.storeLogic (hd.and hk) rd
  case CBR => exact h.storeLogic (hd.and (.refl _)) rd
  case TST => exact h.logic hd
  case OR => exact h.storeLogic (hd.or hr) rd
  case ORI | SBR => exact h.storeLogic (hd.or hk) rd
  case EOR =>
    refine h.storeLogic ?_ rd
    split
    · exact .refl _
    · exact hd.xor hr
  case CLR => exact h.storeLogic (.refl _) rd
  case COM => exact ((h.logic hd.not).setFlag (.refl _ _) (by decide)).setReg hd.not rd
  case SER => exact h.setReg (.refl _) rd
  case LSL => exact (h.shiftLeftWith hd hno).store rd
  case ROL => exact (h.shiftLeftWith hd hc).store rd
  case LSR => exact (h.shiftRightWith hd hno).store rd
  case ROR => exact (h.shiftRightWith hd hc).store rd
  case ASR => exact (h.shiftRightWith hd (hd.bit (by decide))).store rd
  case SWAP => exact h.setReg hd.swap rd
  case BSET | BCLR => exact h.setFlag (.refl _ _) (hi rfl).2
  case BST => exact h.setFlag (hr.bit (hi rfl).2.2) (by decide)
  case BLD => exact h.setReg (hr.setBit (h.flag (by decide)) (hi rfl).2.2) rr
  case MOV => exact h.setReg hr rd
  case MOVW =>
    have hlow := h.setReg hr rd
    exact hlow.setReg (hlow.reg (rr + 1)) (rd + 1)
  case LDI => exact h.setReg hk rd
  case IN => exact h.setReg (h.port k) rd
  case OUT => exact h.setPort hr k
  case SBI | CBI => exact h.setPort ((h.port k).setBit (.refl _ _) (hi rfl).2.2.2) k
  case LD | LDD | LPMD | ELPMD | POP => exact h.setReg (.refl _) rd
  case LDPI => exact (h.setReg (.refl _) rd).movePointer rr 1
  case LDPD => exact (h.setReg (.refl _) rd).movePointer rr (-1)
  case LDS => exact h.setReg (h.data k) rd
  case STPI => exact h.movePointer rd 1
  case STPD => exact h.movePointer rd (-1)
  case STS => exact h.setData hr k
  case LPM | ELPM => exact h.setReg (.refl _) 0
  case LPMPI | ELPMPI => exact (h.setReg (.refl _) rd).movePointer regZ 1
  -- the others set a flag to a constant or leave the state alone
  all_goals first
    | exact h
    | exact h.setFlag (.refl _ _) (by decide)

/-! ### Branches and skips -/

/-- The second state and effect allow what the first do: they continue in states above those of the
first, or their effect is the same. -/
inductive Follows : State × Effect → State × Effect → Prop where
  | next {u u' : State} {taken taken' : Option State}
      (h : ∀ w, w = u ∨ taken = some w → ∃ w', (w' = u' ∨ taken' = some w') ∧ w.Below w') :
      Follows (u, .next taken) (u', .next taken')
  | other {u u' : State} {e : Effect} (h : u.Below u') (he : ∀ taken, e ≠ .next taken) :
      Follows (u, e) (u', e)

theorem Follows.of_below {u u' w : State} {taken : Option State} (h : u.Below w)
    (hw : w = u' ∨ taken = some w) : Follows (u, .next none) (u', .next taken) := by
  refine .next fun v hv => ⟨w, hw, ?_⟩
  rcases hv with rfl | hv
  · exact h
  · simp at hv

theorem Below.follows (h : s.Below t) : Follows (s, .next none) (t, .next none) :=
  .of_below h (.inl rfl)

/-- A condition that the larger state settles is settled the same way in the smaller one. One that the
larger state leaves open goes both ways there. -/
theorem Below.branch (h : s.Below t) (hsingle : c.Single) (hc : c.BelowAt c' 0) (target : Address) :
    Follows (s.branch c target) (t.branch c' target) := by
  have htarget := h.goto target
  unfold State.branch
  by_cases hyes' : c' = .yes
  · have hyes : c = .yes := hc.eq_ofBool (x := true) hsingle hyes'
    rw [if_pos hyes', if_pos hyes]
    exact htarget.follows
  · by_cases hno' : c' = .no
    · have hno : c = .no := hc.eq_ofBool (x := false) hsingle hno'
      rw [if_neg hyes', if_pos hno', if_neg (by rw [hno]; decide), if_pos hno]
      exact h.follows
    · rw [if_neg hyes', if_neg hno']
      split
      · exact .of_below htarget (.inr rfl)
      · split
        · exact .of_below h (.inl rfl)
        · refine .next fun w hw => ?_
          rcases hw with rfl | hw
          · exact ⟨_, .inl rfl, h⟩
          · obtain rfl := Option.some.inj hw
            exact ⟨_, .inr rfl, htarget⟩

/-- Both states ask the same question before a skip, or none. -/
theorem Below.skipTest (h : s.Below t) {i : Instruction} (hi : i.InRange) :
    (s.skipTest? i = none ∧ t.skipTest? i = none) ∨
      ∃ c c', s.skipTest? i = some c ∧ t.skipTest? i = some c' ∧ c.Single ∧ c.BelowAt c' 0 := by
  obtain ⟨op, rd, rr, k, bit⟩ := i
  have hd := h.reg rd
  have hr := h.reg rr
  cases op
  case CPSE => exact .inr ⟨_, _, rfl, rfl, Tribyte.single_equal _ _, hd.equal hr⟩
  case SBRC =>
    exact .inr ⟨_, _, rfl, rfl, (Tribyte.single_bit _ _).not, (hr.bit (hi rfl).2.2).not⟩
  case SBRS => exact .inr ⟨_, _, rfl, rfl, Tribyte.single_bit _ _, hr.bit (hi rfl).2.2⟩
  case SBIC =>
    exact .inr ⟨_, _, rfl, rfl, (Tribyte.single_bit _ _).not, ((h.port k).bit (hi rfl).2.2.2).not⟩
  case SBIS => exact .inr ⟨_, _, rfl, rfl, Tribyte.single_bit _ _, (h.port k).bit (hi rfl).2.2.2⟩
  all_goals exact .inl ⟨rfl, rfl⟩

/-! ### Whole steps -/

theorem Below.proceed (h : s.Below t) (pc : Address) {i : Instruction} (hi : i.InRange) :
    Follows (s.proceed pc i) (t.proceed pc i) := by
  have hstraight := h.straight hi
  obtain ⟨op, rd, rr, k, bit⟩ := i
  cases op
  case RJMP | JMP => exact (h.goto _).follows
  case RCALL | CALL => exact .other (h.goto pc) (by simp)
  case ICALL | EICALL | IJMP | EIJMP => exact .other (h.goto pc) (by simp)
  case RET | RETI | BREAK => exact .other (h.goto pc) (by simp)
  case PUSH => exact .other h (by simp)
  case POP => exact .other hstraight (by simp)
  all_goals exact hstraight.follows

/-- Executing an instruction fails on both states or on neither, and what the smaller state does the
larger one allows. -/
theorem Below.step (h : s.Below t) (code : NextAddress) {i : Instruction} (hi : i.InRange) :
    (∃ cause, (s.step code i).2 = .error cause ∧ (t.step code i).2 = .error cause) ∨
      ∃ u u' e e', s.step code i = (u, .ok e) ∧ t.step code i = (u', .ok e') ∧
        Follows (u, e) (u', e') := by
  have hpassed := h.goto (s.pc + BitVec.ofNat 16 i.size)
  simp only [State.step, ← h.pc]
  split
  · next n b hop =>
    have hflag := hpassed.flag ((hi (plain_of_branchTest hop)).branchTest_lt hop)
    refine .inr ⟨_, _, _, _, rfl, rfl, ?_⟩
    cases b with
    | true => exact hpassed.branch (Tribyte.single_bit _ _) hflag _
    | false => exact hpassed.branch (Tribyte.single_bit _ _).not hflag.not _
  · next hop =>
    rcases hpassed.skipTest hi with ⟨hs, ht⟩ | ⟨c, c', hs, ht, hsingle, hc⟩
    · simp only [hs, ht]
      exact .inr ⟨_, _, _, _, rfl, rfl, hpassed.proceed s.pc hi⟩
    · simp only [hs, ht]
      cases code (s.pc + BitVec.ofNat 16 i.size) with
      | ok target => exact .inr ⟨_, _, _, _, rfl, rfl, hpassed.branch hsingle hc target⟩
      | error cause => exact .inl ⟨_, rfl, rfl⟩

/-! ### Interrupts -/

/-- An interrupt that may fire in the smaller state may fire in the larger one. -/
theorem Below.interrupts (h : s.Below t) : s.interrupts ⊆ t.interrupts := by
  intro num hnum
  unfold State.interrupts at hnum ⊢
  split at hnum
  · simp at hnum
  · next henabled =>
    have henabled' : t.flag Flag.I ≠ .no := h.sreg.bit_ne_no (by decide) henabled
    rw [if_neg henabled']
    have hopen : ∀ {v v' : Tribyte}, v.Below v' → ∀ n ∈ (List.range 8).filter fun n => v.bit n ≠ .no,
        n ∈ (List.range 8).filter fun n => v'.bit n ≠ .no := by
      intro v v' hv n hn
      simp only [List.mem_filter, List.mem_range, decide_eq_true_eq] at hn ⊢
      exact ⟨hn.1, hv.bit_ne_no hn.1 hn.2⟩
    rw [List.mem_append, List.mem_map, List.mem_map] at hnum ⊢
    rcases hnum with ⟨n, hn, rfl⟩ | ⟨n, hn, rfl⟩
    · exact .inl ⟨n, hopen h.eimsk n hn, rfl⟩
    · exact .inr ⟨n, hopen h.timsk n hn, rfl⟩

/-! ### One state below another -/

/-- Two states and effects of which the second allows what the first does: the effects are of one kind with
one call target, and every state that the first leaves lies below one that the second leaves. -/
theorem Follows.allows {u u' : State} {e e' : Effect} (h : Follows (u, e) (u', e')) :
    e.code = e'.code ∧ (∀ a, e = .call a ↔ e' = .call a) ∧
      ∀ w, w = u ∨ e.taken? = some w → ∃ w', (w' = u' ∨ e'.taken? = some w') ∧ w.Below w' := by
  cases h with
  | next h => exact ⟨rfl, by simp, h⟩
  | other h he =>
    have hnone : e.taken? = none := by
      cases e with
      | next taken => exact absurd rfl (he taken)
      | _ => rfl
    refine ⟨rfl, fun _ => Iff.rfl, fun w hw => ⟨u', .inl rfl, ?_⟩⟩
    rw [hnone] at hw
    obtain rfl := hw.resolve_right (by simp)
    exact h

/-- Executing an instruction is monotone: it fails on both states or on neither, and otherwise has the same
effect on both, with every state that the smaller one leaves below one that the larger leaves. The interrupts
of the smaller state are interrupts of the larger one. -/
theorem step_monotone (h : s.Below t) (code : NextAddress) {i : Instruction} (hi : i.InRange) :
    ((∃ cause, (s.step code i).2 = .error cause) ↔ ∃ cause, (t.step code i).2 = .error cause) ∧
      (∀ u u' e e', s.step code i = (u, .ok e) → t.step code i = (u', .ok e') →
        e.code = e'.code ∧ (∀ a, e = .call a ↔ e' = .call a) ∧
          ∀ w, w = u ∨ e.taken? = some w → ∃ w', (w' = u' ∨ e'.taken? = some w') ∧ w.Below w') ∧
      s.interrupts ⊆ t.interrupts := by
  rcases h.step code hi with ⟨cause, hs, ht⟩ | ⟨u, u', e, e', hs, ht, hfollows⟩
  · refine ⟨⟨fun _ => ⟨cause, ht⟩, fun _ => ⟨cause, hs⟩⟩, fun u _ e _ hok => ?_, h.interrupts⟩
    rw [hok] at hs
    cases hs
  · refine ⟨by rw [hs, ht]; simp, fun v v' d d' hs' ht' => ?_, h.interrupts⟩
    cases hs.symm.trans hs'
    cases ht.symm.trans ht'
    exact hfollows.allows

/-- With a known bit a skip goes one way, and with an unknown one this and the other. -/
theorem step_monotone_of_known_bit :
    (reset.setReg 16 (.ofByte 1#8)).Below (reset.setReg 16 .unknown) ∧
      Instruction.InRange { op := .SBRC, rr := 16, bit := 0 } ∧
      ∃ u u' v, (reset.setReg 16 (.ofByte 1#8)).step (fun a => .ok (a + 4#16))
          { op := .SBRC, rr := 16, bit := 0 } = (u, .ok (.next none)) ∧
        (reset.setReg 16 .unknown).step (fun a => .ok (a + 4#16)) { op := .SBRC, rr := 16, bit := 0 } =
          (u', .ok (.next (some v))) ∧
        (u.Below u' ∨ u.Below v) := by
  have hbelow : (reset.setReg 16 (.ofByte 1#8)).Below (reset.setReg 16 .unknown) :=
    (Below.refl _).setReg (Tribyte.below_unknown _) 16
  have hrange : Instruction.InRange { op := .SBRC, rr := 16, bit := 0 } := fun _ => ⟨rfl, by decide⟩
  have hknown : (reset.setReg 16 (.ofByte 1#8)).step (fun a => .ok (a + 4#16))
      { op := .SBRC, rr := 16, bit := 0 } =
        ({ reset.setReg 16 (.ofByte 1#8) with pc := 2#16 }, .ok (.next none)) := by decide +kernel
  have hopen : (reset.setReg 16 .unknown).step (fun a => .ok (a + 4#16))
      { op := .SBRC, rr := 16, bit := 0 } = ({ reset.setReg 16 .unknown with pc := 2#16 },
        .ok (.next (some { reset.setReg 16 .unknown with pc := 6#16 }))) := by decide +kernel
  obtain ⟨-, hstates, -⟩ := step_monotone hbelow (fun a => .ok (a + 4#16)) hrange
  obtain ⟨-, -, hcover⟩ := hstates _ _ _ _ hknown hopen
  obtain ⟨w, rfl | hw, hw'⟩ := hcover _ (.inl rfl)
  · exact ⟨hbelow, hrange, _, _, _, hknown, hopen, .inl hw'⟩
  · obtain rfl := Option.some.inj hw
    exact ⟨hbelow, hrange, _, _, _, hknown, hopen, .inr hw'⟩

end State

end StackDepth
