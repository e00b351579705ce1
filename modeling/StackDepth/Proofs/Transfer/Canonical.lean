import Mathlib
import StackDepth.Proofs.Tribyte.Order
import StackDepth.Transfer.Step

/-!
# Canonical values

A canonical value holds no bit under an unknown position, so it is told apart by the bytes it covers.
Registers and ports are stored in canonical form, but flags are written one by one as they come. So every
flag of every instruction has to come out canonical by itself.

Main statements:

* `Tribyte.Canonical.eq_of_covers`: canonical values that cover the same bytes are equal;
* `State.Canonical.straight`: one case for each opcode;
* `State.Canonical.step`: the state that a step leaves, and the second successor of a branch.
-/

namespace StackDepth

namespace Tribyte

variable {a b v e : Tribyte} {n : Nat}

/-- What is held is known, position by position. -/
theorem canonical_iff :
    v.Canonical ↔ ∀ n < 8, v.held.getLsbD n = true → v.known.getLsbD n = true := by
  constructor
  · intro h n hn hheld
    have hbit := congrArg (fun w : Byte => w.getLsbD n) h
    simp only [BitVec.getLsbD_and, BitVec.getLsbD_not, hheld, hn] at hbit
    simpa using hbit
  · intro h
    refine BitVec.eq_of_getLsbD_eq fun n hn => ?_
    simp only [BitVec.getLsbD_and, BitVec.getLsbD_not, hn, BitVec.getLsbD_zero]
    cases hheld : v.held.getLsbD n with
    | false => rfl
    | true => simp [h n hn hheld]

/-- Canonical values that cover the same bytes are equal. -/
theorem Canonical.eq_of_covers (ha : a.Canonical) (hb : b.Canonical)
    (h : ∀ c, a.Covers c ↔ b.Covers c) : a = b := by
  rw [canonical_iff] at ha hb
  have hab := below_iff.mp (fun c => (h c).mp : a.Below b)
  have hba := below_iff.mp (fun c => (h c).mpr : b.Below a)
  have hknown : ∀ n < 8, a.known.getLsbD n = b.known.getLsbD n := fun n hn =>
    Bool.eq_iff_iff.mpr ⟨fun hk => (hba n hn hk).1, fun hk => (hab n hn hk).1⟩
  refine Tribyte.ext (BitVec.eq_of_getLsbD_eq hknown) (BitVec.eq_of_getLsbD_eq fun n hn => ?_)
  cases hk : b.known.getLsbD n with
  | true => exact (hab n hn hk).2
  | false =>
    -- neither holds a bit where nothing is known
    have hunheld := mt (ha n hn) (by rw [hknown n hn, hk]; exact Bool.false_ne_true)
    have hunheld' := mt (hb n hn) (by rw [hk]; exact Bool.false_ne_true)
    rw [Bool.eq_false_of_not_eq_true hunheld, Bool.eq_false_of_not_eq_true hunheld']

/-! ### Results of operations -/

theorem canonical_make (known bits : Byte) : (make known bits).Canonical := by
  rw [canonical_iff]
  intro n _ hheld
  rw [make, BitVec.getLsbD_and, Bool.and_eq_true] at hheld
  exact hheld.2

theorem canonical_agree (x y mask : Byte) : (agree x y mask).Canonical := canonical_make _ _

theorem canonical_ofByte (c : Byte) : (ofByte c).Canonical := by
  have hall : ∀ n < 8, (255#8).getLsbD n = true := by decide
  exact canonical_iff.mpr fun n hn _ => hall n hn

theorem canonical_yes : yes.Canonical := by decide

theorem canonical_no : no.Canonical := by decide

theorem canonical_unknown : unknown.Canonical := by decide

theorem canonical_ofBool (x : Bool) : (ofBool x).Canonical := by
  cases x <;> decide

theorem canonical_isZero (v : Tribyte) : v.isZero.Canonical := by
  unfold isZero
  split
  · exact canonical_yes
  · split
    · exact canonical_no
    · exact canonical_unknown

theorem canonical_equal (a b : Tribyte) : (a.equal b).Canonical := by
  unfold equal
  split
  · exact canonical_no
  · split
    · exact canonical_yes
    · exact canonical_unknown

/-- A single bit is read from both masks at the same position. -/
theorem Canonical.bit (h : v.Canonical) (hn : n < 8) : (v.bit n).Canonical := by
  rw [canonical_iff] at h ⊢
  intro i hi hheld
  by_cases hzero : i = 0
  · subst hzero
    rw [held_bit hn] at hheld
    rw [known_bit hn]
    exact h n hn hheld
  · rw [(single_bit v n i hi (Nat.pos_of_ne_zero hzero)).2] at hheld
    exact absurd hheld Bool.false_ne_true

theorem Canonical.setBit (h : v.Canonical) (hb : b.Canonical) (hn : n < 8) :
    (v.setBit n b).Canonical := by
  rw [canonical_iff] at h hb ⊢
  intro i hi hheld
  rw [held_setBit hn hi] at hheld
  rw [known_setBit hn hi]
  split at hheld
  · next heq =>
    rw [if_pos heq]
    exact hb 0 (by decide) hheld
  · next hne =>
    rw [if_neg hne]
    exact h i hi hheld

theorem Canonical.shiftLeft (he : e.Canonical) (v : Tribyte) : (v.shiftLeft e).Canonical :=
  (canonical_make _ _).setBit he (by decide)

theorem Canonical.shiftRight (he : e.Canonical) (v : Tribyte) : (v.shiftRight e).Canonical :=
  (canonical_make _ _).setBit he (by decide)

end Tribyte

open Tribyte

/-- A bit number is one of the eight, if the form of the instruction has one. -/
def Instruction.BitInRange (i : Instruction) : Prop :=
  i.op.form ∈ [.flagRelative, .portBit, .registerBit, .flag] → i.bit < 8

instance (i : Instruction) : Decidable i.BitInRange := inferInstanceAs (Decidable (_ → _))

namespace State

variable {s t : State} {b c r v : Tribyte} {n : Nat}

/-- The states stand at the same address, and each tracked value covers the same bytes in both. -/
structure SameMeaning (s t : State) : Prop where
  /-- The program counters agree. -/
  pc : s.pc = t.pc
  /-- The status registers cover the same bytes. -/
  sreg : ∀ c, s.sreg.Covers c ↔ t.sreg.Covers c
  /-- The masks of the external interrupts do. -/
  eimsk : ∀ c, s.eimsk.Covers c ↔ t.eimsk.Covers c
  /-- The masks of the timer interrupts do. -/
  timsk : ∀ c, s.timsk.Covers c ↔ t.timsk.Covers c
  /-- The general registers do, one by one. -/
  regs : ∀ (r : Fin registerCount) c, (s.regs.get r).Covers c ↔ (t.regs.get r).Covers c

theorem SameMeaning.refl (s : State) : s.SameMeaning s :=
  ⟨rfl, fun _ => .rfl, fun _ => .rfl, fun _ => .rfl, fun _ _ => .rfl⟩

/-- Canonical states that mean the same are equal. -/
theorem SameMeaning.eq (h : s.SameMeaning t) (hs : s.Canonical) (ht : t.Canonical) : s = t := by
  obtain ⟨hsreg, heimsk, htimsk, hregs⟩ := hs
  obtain ⟨hsreg', heimsk', htimsk', hregs'⟩ := ht
  refine State.ext h.pc (hsreg.eq_of_covers hsreg' h.sreg) (heimsk.eq_of_covers heimsk' h.eimsk)
    (htimsk.eq_of_covers htimsk' h.timsk) (Vector.ext fun r hr => ?_)
  exact (hregs ⟨r, hr⟩).eq_of_covers (hregs' ⟨r, hr⟩) (h.regs ⟨r, hr⟩)

/-! ### Reading and writing -/

theorem canonical_reset : reset.Canonical := by
  refine ⟨canonical_ofByte _, canonical_ofByte _, canonical_ofByte _, fun r => ?_⟩
  rw [reset, Vector.get_eq_getElem, Vector.getElem_replicate]
  exact canonical_ofByte _

theorem Canonical.goto (h : s.Canonical) (pc : Address) : ({ s with pc } : State).Canonical := h

theorem Canonical.reg (h : s.Canonical) (r : Nat) : (s.reg r).Canonical := h.2.2.2 (place r)

theorem Canonical.flag (h : s.Canonical) (hn : n < 8) : (s.flag n).Canonical := h.1.bit hn

theorem Canonical.setReg (h : s.Canonical) (r : Nat) (v : Tribyte) : (s.setReg r v).Canonical := by
  refine ⟨h.1, h.2.1, h.2.2.1, fun q => ?_⟩
  simp only [State.setReg, Vector.get_eq_getElem]
  by_cases hq : (place r).val = q.val
  · simp only [hq, Vector.getElem_set_self]
    exact canonical_make _ _
  · rw [Vector.getElem_set_ne _ _ hq]
    exact h.2.2.2 q

theorem Canonical.setFlag (h : s.Canonical) (hb : b.Canonical) (hn : n < 8) :
    (s.setFlag n b).Canonical :=
  ⟨h.1.setBit hb hn, h.2⟩

theorem Canonical.setPort (h : s.Canonical) (k : Int) (v : Tribyte) : (s.setPort k v).Canonical := by
  unfold State.setPort
  split
  · exact ⟨canonical_make _ _, h.2⟩
  · split
    · exact ⟨h.1, canonical_make _ _, h.2.2⟩
    · split
      · exact ⟨h.1, h.2.1, canonical_make _ _, h.2.2.2⟩
      · exact h

theorem Canonical.setData (h : s.Canonical) (k : Int) (v : Tribyte) : (s.setData k v).Canonical := by
  unfold State.setData
  split
  · exact h.setReg _ _
  · split
    · exact h.setPort _ _
    · exact h

/-! ### The building blocks of the unit -/

theorem Canonical.setNZVS (h : s.Canonical) (hr : r.Canonical) (hv : v.Canonical) :
    (s.setNZVS r v).Canonical :=
  (((h.setFlag (hr.bit (by decide)) (by decide)).setFlag (canonical_isZero r) (by decide)).setFlag hv
    (by decide)).setFlag (canonical_make _ _) (by decide)

theorem Canonical.logic (h : s.Canonical) (hr : r.Canonical) : (s.logic r).Canonical :=
  h.setNZVS hr canonical_no

theorem Canonical.addWith (h : s.Canonical) (a b c : Tribyte) : (s.addWith a b c).1.Canonical :=
  ((h.setFlag (canonical_make _ _) (by decide)).setFlag (canonical_make _ _) (by decide)).setNZVS
    (canonical_agree _ _ _) (canonical_make _ _)

theorem Canonical.subWith (h : s.Canonical) (a b c : Tribyte) (keepZ : Bool) :
    (s.subWith a b c keepZ).1.Canonical := by
  have hflags : (s.subWith a b c false).1.Canonical :=
    ((h.setFlag (canonical_make _ _) (by decide)).setFlag (canonical_make _ _) (by decide)).setNZVS
      (canonical_agree _ _ _) (canonical_make _ _)
  cases keepZ with
  | false => exact hflags
  | true => exact hflags.setFlag (canonical_make _ _) (by decide)

theorem Canonical.shiftLeftWith (h : s.Canonical) (hv : v.Canonical) (hc : c.Canonical) :
    (s.shiftLeftWith v c).1.Canonical :=
  ((h.setFlag (hv.bit (by decide)) (by decide)).setFlag (hv.bit (by decide)) (by decide)).setNZVS
    (hc.shiftLeft v) (canonical_make _ _)

theorem Canonical.shiftRightWith (h : s.Canonical) (hv : v.Canonical) (hc : c.Canonical) :
    (s.shiftRightWith v c).1.Canonical :=
  (h.setFlag (hv.bit (by decide)) (by decide)).setNZVS (hc.shiftRight v) (canonical_make _ _)

theorem Canonical.addPair (h : s.Canonical) (rd : Nat) (k : Int) : (s.addPair rd k).Canonical := by
  have hite : ∀ {q : Prop} [Decidable q] {a b : Tribyte}, a.Canonical → b.Canonical →
      (if q then a else b).Canonical := by
    intro q _ a b ha hb
    split
    · exact ha
    · exact hb
  have htop := (canonical_agree _ _ _ :
    (addWord (s.reg rd) (s.reg (rd + 1)) k).2.Canonical).bit (show 7 < 8 by decide)
  exact ((((((h.setFlag (hite (canonical_make _ _) (canonical_make _ _)) (by decide)).setFlag htop
    (by decide)).setFlag (canonical_make _ _) (by decide)).setFlag
    (hite (canonical_make _ _) (canonical_make _ _)) (by decide)).setFlag (canonical_make _ _)
    (by decide)).setReg _ _).setReg _ _

theorem Canonical.multiply (h : s.Canonical) (i : Instruction) (signedA signedB fractional : Bool) :
    (s.multiply i signedA signedB fractional).Canonical := by
  have hput : ∀ {lo hi c z : Tribyte}, c.Canonical → z.Canonical →
      ((((s.setReg 0 lo).setReg 1 hi).setFlag Flag.C c).setFlag Flag.Z z).Canonical := by
    intro lo hi c z hc hz
    exact (((h.setReg 0 lo).setReg 1 hi).setFlag hc (by decide)).setFlag hz (by decide)
  unfold State.multiply
  dsimp only
  split
  · exact hput (canonical_ofBool _) (canonical_ofBool _)
  · split
    · exact hput canonical_no canonical_yes
    · exact hput canonical_unknown canonical_unknown

theorem Canonical.movePointer (h : s.Canonical) (r : Nat) (k : Int) : (s.movePointer r k).Canonical :=
  (h.setReg _ _).setReg _ _

/-! ### One case for each opcode -/

theorem Canonical.storeLogic (h : s.Canonical) (hv : v.Canonical) (r : Nat) :
    (s.storeLogic r v).Canonical :=
  (h.logic hv).setReg r v

theorem Canonical.straight (h : s.Canonical) {i : Instruction} (hi : i.BitInRange) :
    (s.straight i).Canonical := by
  obtain ⟨op, rd, rr, k, bit⟩ := i
  have hd := h.reg rd
  have hc := h.flag (show Flag.C < 8 by decide)
  cases op
  case ADD | ADC => exact (h.addWith _ _ _).setReg rd _
  case SUB | SUBI | SBC | SBCI | NEG => exact (h.subWith _ _ _ _).setReg rd _
  case CP | CPC | CPI => exact h.subWith _ _ _ _
  case INC | DEC => exact (h.setNZVS (canonical_agree _ _ _) (canonical_equal _ _)).setReg rd _
  case ADIW | SBIW => exact h.addPair rd _
  case MUL | MULS | MULSU | FMUL | FMULS | FMULSU => exact h.multiply _ _ _ _
  case AND | ANDI | CBR | OR | ORI | SBR => exact h.storeLogic (canonical_make _ _) rd
  case TST => exact h.logic hd
  case EOR =>
    refine h.storeLogic ?_ rd
    split
    · exact canonical_ofByte _
    · exact canonical_make _ _
  case CLR => exact h.storeLogic (canonical_ofByte _) rd
  case COM => exact ((h.logic (canonical_make _ _)).setFlag canonical_yes (by decide)).setReg rd _
  case LSL => exact (h.shiftLeftWith hd canonical_no).setReg rd _
  case ROL => exact (h.shiftLeftWith hd hc).setReg rd _
  case LSR => exact (h.shiftRightWith hd canonical_no).setReg rd _
  case ROR => exact (h.shiftRightWith hd hc).setReg rd _
  case ASR => exact (h.shiftRightWith hd (hd.bit (by decide))).setReg rd _
  case BSET => exact h.setFlag canonical_yes (hi (by simp [Opcode.form]))
  case BCLR => exact h.setFlag canonical_no (hi (by simp [Opcode.form]))
  case BST => exact h.setFlag ((h.reg rr).bit (hi (by simp [Opcode.form]))) (by decide)
  case BLD => exact h.setReg rr _
  case MOVW => exact (h.setReg rd _).setReg (rd + 1) _
  case SER | SWAP | MOV | LDI | IN | LDS => exact h.setReg rd _
  case OUT | SBI | CBI => exact h.setPort k _
  case LD | LDD | LPMD | ELPMD | POP => exact h.setReg rd _
  case LDPI | LDPD => exact (h.setReg rd _).movePointer rr _
  case STPI | STPD => exact h.movePointer rd _
  case STS => exact h.setData k _
  case LPM | ELPM => exact h.setReg 0 _
  case LPMPI | ELPMPI => exact (h.setReg rd _).movePointer regZ 1
  -- the others set a flag to a constant or leave the state alone
  all_goals first
    | exact h
    | exact h.setFlag (canonical_ofBool _) (by decide)

/-! ### Whole steps -/

/-- The state that is left and the second successor, if there is one, are canonical. -/
def EffectCanonical (p : State × Effect) : Prop :=
  p.1.Canonical ∧ ∀ u, p.2.taken? = some u → u.Canonical

theorem Canonical.branch (h : s.Canonical) (c : Tribyte) (target : Address) :
    EffectCanonical (s.branch c target) := by
  unfold State.branch
  split
  · exact ⟨h.goto target, by simp [Effect.taken?]⟩
  · split
    · exact ⟨h, by simp [Effect.taken?]⟩
    · refine ⟨h, fun u hu => ?_⟩
      obtain rfl := Option.some.inj hu
      exact h.goto target

theorem Canonical.proceed (h : s.Canonical) (pc : Address) {i : Instruction} (hi : i.BitInRange) :
    EffectCanonical (s.proceed pc i) := by
  have hstraight := h.straight hi
  have hnone : ∀ {t : State} {e : Effect}, t.Canonical → e.taken? = none → EffectCanonical (t, e) :=
    fun ht he => ⟨ht, fun u hu => by rw [he] at hu; exact absurd hu (by simp)⟩
  obtain ⟨op, rd, rr, k, bit⟩ := i
  cases op
  case RJMP | JMP => exact hnone (h.goto _) rfl
  case RCALL | CALL | ICALL | EICALL | IJMP | EIJMP => exact hnone (h.goto pc) rfl
  case RET | RETI | BREAK => exact hnone (h.goto pc) rfl
  case PUSH => exact hnone h rfl
  all_goals exact hnone hstraight rfl

/-- Executing an instruction leads from a canonical state to canonical states only. -/
theorem Canonical.step (h : s.Canonical) (code : NextAddress) {i : Instruction} (hi : i.BitInRange)
    {e : Effect} (hstep : s.step code i = (t, .ok e)) : EffectCanonical (t, e) := by
  have hnext := h.goto (s.pc + BitVec.ofNat 16 i.size)
  unfold State.step at hstep
  dsimp only at hstep
  split at hstep
  · next n b _ =>
    obtain ⟨rfl, he⟩ := Prod.mk.inj hstep
    rw [← Except.ok.inj he]
    exact hnext.branch _ _
  · split at hstep
    · next c _ =>
      split at hstep
      · next target _ =>
        obtain ⟨rfl, he⟩ := Prod.mk.inj hstep
        rw [← Except.ok.inj he]
        exact hnext.branch _ _
      · simp at hstep
    · obtain ⟨rfl, he⟩ := Prod.mk.inj hstep
      rw [← Except.ok.inj he]
      exact hnext.proceed _ hi

end State

end StackDepth
