import Mathlib
import StackDepth.Machine
import StackDepth.Proofs.Tribyte.Cover
import StackDepth.Transfer.Alu

/-!
# The arithmetic unit, abstract beside concrete

The concrete unit derives its flags from wide sums and signed ranges, the abstract one from single bits
of operands and result. The first section shows that both say the same of concrete bytes; the others
carry this through the setting of flags and registers, one lemma for each building block of the unit.

`Machine.ShownBy` relates a machine to an abstract state. As for `Tribyte.Shows`, it is coverage when
`sharp` is false and coverage by known values when `sharp` is true.
-/

namespace StackDepth

/-! ### Flags of concrete bytes -/

section Bytes

variable (a b : Byte) (c : Bool)

theorem ofNat_add_unit :
    BitVec.ofNat 8 (a.toNat + b.toNat + c.toNat) = a + b + Tribyte.unit c := by
  apply BitVec.eq_of_toNat_eq
  cases c <;> simp [Tribyte.unit]

theorem getLsbD_three : a.getLsbD 3 = decide (8 ≤ a.toNat % 16) := by
  rw [BitVec.getLsbD, Nat.testBit_eq_decide_div_mod_eq, Bool.eq_iff_iff]
  simp only [decide_eq_true_eq]
  omega

theorem msb_byte : a.msb = decide (128 ≤ a.toNat) := BitVec.msb_eq_decide a

theorem toNat_add_unit : (a + b + Tribyte.unit c).toNat = (a.toNat + b.toNat + c.toNat) % 256 := by
  rw [← ofNat_add_unit, BitVec.toNat_ofNat]

theorem toNat_sub_unit :
    (a - b - Tribyte.unit c).toNat = (a.toNat + 512 - b.toNat - c.toNat) % 256 := by
  have hb := b.isLt
  cases c <;> simp [Tribyte.unit, BitVec.toNat_sub] <;> omega

theorem ofInt_sub_unit :
    BitVec.ofInt 8 ((a.toNat : Int) - b.toNat - c.toNat) = a - b - Tribyte.unit c := by
  apply BitVec.eq_of_toNat_eq
  have hb := b.isLt
  rw [toNat_sub_unit, BitVec.toNat_ofInt]
  have hc := c.toNat_le
  omega

/-- The carry out of a sum, from the top bits of operands and result. -/
theorem carry_of_bits (r : Byte) (hr : r = a + b + Tribyte.unit c) :
    ((a.msb && b.msb) || (b.msb && !r.msb) || (!r.msb && a.msb))
      = decide (255 < a.toNat + b.toNat + c.toNat) := by
  have ha := a.isLt
  have hb := b.isLt
  have hrn := toNat_add_unit a b c
  rw [← hr] at hrn
  rw [Bool.eq_iff_iff]
  simp only [msb_byte, Bool.or_eq_true, Bool.and_eq_true, Bool.not_eq_true',
    decide_eq_true_eq, decide_eq_false_iff_not]
  have hc := c.toNat_le
  omega

theorem halfCarry_of_bits (r : Byte) (hr : r = a + b + Tribyte.unit c) :
    ((a.getLsbD 3 && b.getLsbD 3) || (b.getLsbD 3 && !r.getLsbD 3) ||
        (!r.getLsbD 3 && a.getLsbD 3))
      = decide (15 < a.toNat % 16 + b.toNat % 16 + c.toNat) := by
  have hrn := toNat_add_unit a b c
  rw [← hr] at hrn
  rw [Bool.eq_iff_iff]
  simp only [getLsbD_three, Bool.or_eq_true, Bool.and_eq_true, Bool.not_eq_true',
    decide_eq_true_eq, decide_eq_false_iff_not]
  have hc := c.toNat_le
  omega

theorem overflow_of_bits (r : Byte) (hr : r = a + b + Tribyte.unit c) :
    ((a.msb && b.msb && !r.msb) || (!a.msb && !b.msb && r.msb))
      = Machine.overflows8 (a.toInt + b.toInt + c.toNat) := by
  have ha := a.isLt
  have hb := b.isLt
  have hrn := toNat_add_unit a b c
  rw [← hr] at hrn
  rw [Bool.eq_iff_iff]
  simp only [msb_byte, Machine.overflows8, BitVec.toInt_eq_toNat_cond, Bool.or_eq_true,
    Bool.and_eq_true, Bool.not_eq_true', decide_eq_true_eq, decide_eq_false_iff_not]
  have hc := c.toNat_le
  omega

/-- The borrow out of a difference, from the top bits of operands and result. -/
theorem borrow_of_bits (r : Byte) (hr : r = a - b - Tribyte.unit c) :
    ((!a.msb && b.msb) || (b.msb && r.msb) || (r.msb && !a.msb))
      = decide (a.toNat < b.toNat + c.toNat) := by
  have ha := a.isLt
  have hb := b.isLt
  have hrn := toNat_sub_unit a b c
  rw [← hr] at hrn
  rw [Bool.eq_iff_iff]
  simp only [msb_byte, Bool.or_eq_true, Bool.and_eq_true, Bool.not_eq_true',
    decide_eq_true_eq, decide_eq_false_iff_not]
  have hc := c.toNat_le
  omega

theorem halfBorrow_of_bits (r : Byte) (hr : r = a - b - Tribyte.unit c) :
    ((!a.getLsbD 3 && b.getLsbD 3) || (b.getLsbD 3 && r.getLsbD 3) ||
        (r.getLsbD 3 && !a.getLsbD 3))
      = decide (a.toNat % 16 < b.toNat % 16 + c.toNat) := by
  have hb := b.isLt
  have hrn := toNat_sub_unit a b c
  rw [← hr] at hrn
  rw [Bool.eq_iff_iff]
  simp only [getLsbD_three, Bool.or_eq_true, Bool.and_eq_true, Bool.not_eq_true',
    decide_eq_true_eq, decide_eq_false_iff_not]
  have hc := c.toNat_le
  omega

theorem underflow_of_bits (r : Byte) (hr : r = a - b - Tribyte.unit c) :
    ((a.msb && !b.msb && !r.msb) || (!a.msb && b.msb && r.msb))
      = Machine.overflows8 (a.toInt - b.toInt - c.toNat) := by
  have ha := a.isLt
  have hb := b.isLt
  have hrn := toNat_sub_unit a b c
  rw [← hr] at hrn
  rw [Bool.eq_iff_iff]
  simp only [msb_byte, Machine.overflows8, BitVec.toInt_eq_toNat_cond, Bool.or_eq_true,
    Bool.and_eq_true, Bool.not_eq_true', decide_eq_true_eq, decide_eq_false_iff_not]
  have hc := c.toNat_le
  omega

end Bytes

section Words

variable (w : BitVec 16) (k : Int)

theorem wrap64_of_small (h : -70000 ≤ k ∧ k ≤ 70000) : wrap64 k = k := by
  exact Int.bmod_eq_of_le_mul_two (by omega) (by omega)

theorem toNat_add_ofInt :
    ((w + BitVec.ofInt 16 k).toNat : Int) = ((w.toNat : Int) + k) % 65536 := by
  simp only [BitVec.toNat_add, BitVec.toNat_ofInt]
  omega

theorem msb_word (r : BitVec 16) : r.msb = decide (32768 ≤ r.toNat) := BitVec.msb_eq_decide r

/-- The overflow of a small step, from the top bits before and after it. -/
theorem pairOverflow_of_bits (hk : -63 ≤ k ∧ k ≤ 63) (r : BitVec 16)
    (hr : r = w + BitVec.ofInt 16 k) :
    (if 0 ≤ k then !w.msb && r.msb else w.msb && !r.msb)
      = Machine.overflows16 (wrap64 (w.toInt + k)) := by
  have hw := w.isLt
  have hrn := toNat_add_ofInt w k
  rw [← hr] at hrn
  have hint := BitVec.toInt_eq_toNat_cond w
  rw [wrap64_of_small _ (by split at hint <;> omega), Bool.eq_iff_iff, hint]
  split <;>
    simp only [msb_word, Machine.overflows16, Bool.or_eq_true, Bool.and_eq_true, Bool.not_eq_true',
      decide_eq_true_eq, decide_eq_false_iff_not] <;>
    omega

theorem pairCarry_of_bits (hk : -63 ≤ k ∧ k ≤ 63) (r : BitVec 16)
    (hr : r = w + BitVec.ofInt 16 k) :
    (if 0 ≤ k then !r.msb && w.msb else r.msb && !w.msb)
      = (decide (65535 < wrap64 (w.toNat + k)) || decide (wrap64 (w.toNat + k) < 0)) := by
  have hw := w.isLt
  have hrn := toNat_add_ofInt w k
  rw [← hr] at hrn
  rw [wrap64_of_small _ (by omega), Bool.eq_iff_iff]
  split <;>
    simp only [msb_word, Bool.or_eq_true, Bool.and_eq_true, Bool.not_eq_true', decide_eq_true_eq,
      decide_eq_false_iff_not] <;>
    omega

theorem msb_extract_high (r : BitVec 16) : (r.extractLsb' 8 8).msb = r.msb := by
  rw [BitVec.msb_eq_getLsbD_last, BitVec.msb_eq_getLsbD_last]
  simp

theorem word_eq_zero (r : BitVec 16) :
    (r.extractLsb' 0 8 == 0#8 && r.extractLsb' 8 8 == 0#8) = (r == 0#16) := by
  rw [Bool.eq_iff_iff, Bool.and_eq_true, beq_iff_eq, beq_iff_eq, beq_iff_eq]
  constructor
  · rintro ⟨hlow, hhigh⟩
    have hlown := congrArg BitVec.toNat hlow
    have hhighn := congrArg BitVec.toNat hhigh
    simp only [BitVec.extractLsb'_toNat, BitVec.toNat_ofNat, Nat.shiftRight_eq_div_pow] at hlown hhighn
    apply BitVec.eq_of_toNat_eq
    have hr := r.isLt
    simp only [BitVec.toNat_ofNat]
    omega
  · intro h
    rw [h]
    decide

end Words

/-! ### Registers and flags -/

namespace Machine

/-- The registers and the status register of the state show those of the machine. -/
def ShownBy (sharp : Prop) (m : Machine) (s : State) : Prop :=
  (∀ r : Fin registerCount, (s.regs.get r).Shows sharp (m.regs.get r)) ∧
    s.sreg.Shows sharp m.sreg

variable {sharp : Prop} {m : Machine} {s : State} {t v : Tribyte} {x : Bool} {b : Byte} {n : Nat}

theorem ShownBy.reg (h : m.ShownBy sharp s) (r : Nat) : (s.reg r).Shows sharp (m.reg r) :=
  h.1 (State.place r)

theorem ShownBy.flag (h : m.ShownBy sharp s) (hn : n < 8) :
    (s.flag n).Tells sharp 0 (m.flag n) :=
  h.2.bit hn

theorem ShownBy.setReg (h : m.ShownBy sharp s) (hv : v.Shows sharp b) (r : Nat) :
    (m.setReg r b).ShownBy sharp (s.setReg r v) := by
  refine ⟨fun q => ?_, h.2⟩
  simp only [State.setReg, Machine.setReg, Vector.get_eq_getElem]
  by_cases hq : State.place r = q
  · subst hq
    rw [Vector.getElem_set_self, Vector.getElem_set_self]
    exact hv.canon
  · have hne : (State.place r).val ≠ q.val := fun hval => hq (Fin.ext hval)
    rw [Vector.getElem_set_ne _ _ hne, Vector.getElem_set_ne _ _ hne]
    exact h.1 q

theorem ShownBy.setFlag (h : m.ShownBy sharp s) (ht : t.Tells sharp 0 x) (hn : n < 8) :
    (m.setFlag n x).ShownBy sharp (s.setFlag n t) :=
  ⟨h.1, h.2.setBit ht hn⟩

/-- Flags at different positions may be set in either order. -/
theorem setFlag_comm {k : Nat} {y : Bool} (hn : n < 8) (hk : k < 8) (hne : n ≠ k) :
    (m.setFlag n x).setFlag k y = (m.setFlag k y).setFlag n x := by
  refine Machine.ext rfl (BitVec.eq_of_getLsbD_eq fun i hi => ?_)
  simp only [Machine.setFlag, Tribyte.getLsbD_replace _ hn hi, Tribyte.getLsbD_replace _ hk hi]
  grind

end Machine

/-! ### The building blocks of the unit -/

section Unit

open Machine

variable {sharp : Prop} {m : Machine} {s : State} {p q e v : Tribyte} {a b c : Byte} {x y z : Bool}

theorem tells_carryOut {r : Tribyte} (hp : p.Tells sharp 0 x) (hq : q.Tells sharp 0 y)
    (hr : r.Tells sharp 0 z) :
    (State.carryOut p q r).Tells sharp 0 ((x && y) || (y && !z) || (!z && x)) :=
  ((hp.and hq).or (by omega) (hq.and (hr.not (by omega)))).or (by omega)
    ((hr.not (by omega)).and hp)

theorem tells_borrowOut {r : Tribyte} (hp : p.Tells sharp 0 x) (hq : q.Tells sharp 0 y)
    (hr : r.Tells sharp 0 z) :
    (State.borrowOut p q r).Tells sharp 0 ((!x && y) || (y && z) || (z && !x)) :=
  (((hp.not (by omega)).and hq).or (by omega) (hq.and hr)).or (by omega)
    (hr.and (hp.not (by omega)))

theorem shownBy_setNZVS (h : m.ShownBy sharp s) (hv : v.Shows sharp c) (hp : p.Tells sharp 0 x) :
    (m.setNZVS c x).ShownBy sharp (s.setNZVS v p) :=
  (((h.setFlag hv.msb (by decide)).setFlag hv.isZero (by decide)).setFlag hp (by decide)).setFlag
    (hv.msb.xor hp) (by decide)

theorem shownBy_addWith (h : m.ShownBy sharp s) (hp : p.Shows sharp a) (hq : q.Shows sharp b)
    (he : e.Tells sharp 0 z) :
    (m.addWith a b z).1.ShownBy sharp (s.addWith p q e).1 ∧
      (s.addWith p q e).2.Shows sharp (m.addWith a b z).2 := by
  have hr := hp.add hq he
  simp only [State.addWith, Machine.addWith, ofNat_add_unit]
  refine ⟨shownBy_setNZVS ((h.setFlag ?_ (by decide)).setFlag ?_ (by decide)) hr ?_, hr⟩
  · rw [← halfCarry_of_bits a b z _ rfl]
    exact tells_carryOut (hp.bit (by omega)) (hq.bit (by omega)) (hr.bit (by omega))
  · rw [← carry_of_bits a b z _ rfl]
    exact tells_carryOut hp.msb hq.msb hr.msb
  · rw [← overflow_of_bits a b z _ rfl]
    exact ((hp.msb.and hq.msb).and (hr.msb.not (by omega))).or (by omega)
      (((hp.msb.not (by omega)).and (hq.msb.not (by omega))).and hr.msb)

theorem shownBy_subWith (h : m.ShownBy sharp s) (hp : p.Shows sharp a) (hq : q.Shows sharp b)
    (he : e.Tells sharp 0 z) (keepZ : Bool) :
    (m.subWith a b z keepZ).1.ShownBy sharp (s.subWith p q e keepZ).1 ∧
      (s.subWith p q e keepZ).2.Shows sharp (m.subWith a b z keepZ).2 := by
  have hr := hp.sub hq he
  simp only [State.subWith, Machine.subWith, ofInt_sub_unit]
  refine ⟨?_, hr⟩
  have hflags : (((m.setFlag Flag.H (decide (a.toNat % 16 < b.toNat % 16 + z.toNat))).setFlag Flag.C
      (decide (a.toNat < b.toNat + z.toNat))).setNZVS (a - b - Tribyte.unit z)
        (overflows8 (a.toInt - b.toInt - z.toNat))).ShownBy sharp
      (((s.setFlag Flag.H (State.borrowOut (p.bit 3) (q.bit 3) ((p.sub q e).bit 3))).setFlag Flag.C
        (State.borrowOut (p.bit 7) (q.bit 7) ((p.sub q e).bit 7))).setNZVS (p.sub q e)
        ((((p.bit 7).and (q.bit 7).not).and ((p.sub q e).bit 7).not).or
          (((p.bit 7).not.and (q.bit 7)).and ((p.sub q e).bit 7)))) := by
    refine shownBy_setNZVS ((h.setFlag ?_ (by decide)).setFlag ?_ (by decide)) hr ?_
    · rw [← halfBorrow_of_bits a b z _ rfl]
      exact tells_borrowOut (hp.bit (by omega)) (hq.bit (by omega)) (hr.bit (by omega))
    · rw [← borrow_of_bits a b z _ rfl]
      exact tells_borrowOut hp.msb hq.msb hr.msb
    · rw [← underflow_of_bits a b z _ rfl]
      exact ((hp.msb.and (hq.msb.not (by omega))).and (hr.msb.not (by omega))).or (by omega)
        (((hp.msb.not (by omega)).and hq.msb).and hr.msb)
  cases keepZ with
  | false => exact hflags
  | true => exact hflags.setFlag (hr.isZero.and (h.flag (by decide))) (by decide)

theorem shownBy_logic (h : m.ShownBy sharp s) (hv : v.Shows sharp c) :
    (m.logic c).ShownBy sharp (s.logic v) :=
  shownBy_setNZVS h hv Tribyte.tells_no

theorem shownBy_shiftLeftWith (h : m.ShownBy sharp s) (hv : v.Shows sharp a)
    (he : e.Tells sharp 0 z) :
    (m.shiftLeftWith a z).1.ShownBy sharp (s.shiftLeftWith v e).1 ∧
      (s.shiftLeftWith v e).2.Shows sharp (m.shiftLeftWith a z).2 := by
  have hr := hv.shiftLeft he
  exact ⟨shownBy_setNZVS ((h.setFlag (hv.bit (by omega)) (by decide)).setFlag hv.msb (by decide)) hr
    (hr.msb.xor hv.msb), hr⟩

theorem shownBy_shiftRightWith (h : m.ShownBy sharp s) (hv : v.Shows sharp a)
    (he : e.Tells sharp 0 z) :
    (m.shiftRightWith a (if z then 0x80#8 else 0#8)).1.ShownBy sharp (s.shiftRightWith v e).1 ∧
      (s.shiftRightWith v e).2.Shows sharp (m.shiftRightWith a (if z then 0x80#8 else 0#8)).2 := by
  have hr := hv.shiftRight he
  have hlow := hv.bit (show 0 < 8 by omega)
  exact ⟨shownBy_setNZVS (h.setFlag hlow (by decide)) hr (hr.msb.xor hlow), hr⟩

theorem shownBy_addPair (h : m.ShownBy sharp s) (rd : Nat) (k : Int) (hk : -63 ≤ k ∧ k ≤ 63) :
    (m.addPair rd k).ShownBy sharp (s.addPair rd k) := by
  obtain ⟨hlo, hhi⟩ := (h.reg rd).addWord (h.reg (rd + 1)) k
  have htop : ((s.reg (rd + 1)).bit 7).Tells sharp 0 (m.reg (rd + 1) ++ m.reg rd).msb := by
    rw [BitVec.msb_append]
    exact (h.reg (rd + 1)).msb
  have htop' := hhi.msb
  rw [msb_extract_high] at htop'
  have hv := pairOverflow_of_bits (m.reg (rd + 1) ++ m.reg rd) k hk _ rfl
  have hc := pairCarry_of_bits (m.reg (rd + 1) ++ m.reg rd) k hk _ rfl
  have hz := hlo.isZero.and hhi.isZero
  rw [word_eq_zero] at hz
  simp only [State.addPair, Machine.addPair]
  rw [← hv, ← hc]
  -- the machine sets its flags in another order
  rw [setFlag_comm (show Flag.S < 8 by decide) (show Flag.C < 8 by decide) (by decide),
    setFlag_comm (show Flag.Z < 8 by decide) (show Flag.V < 8 by decide) (by decide),
    setFlag_comm (show Flag.N < 8 by decide) (show Flag.V < 8 by decide) (by decide)]
  have hvt : (if 0 ≤ k then ((s.reg (rd + 1)).bit 7).not.and
        (((s.reg rd).addWord (s.reg (rd + 1)) k).2.bit 7)
      else ((s.reg (rd + 1)).bit 7).and
        (((s.reg rd).addWord (s.reg (rd + 1)) k).2.bit 7).not).Tells sharp 0
      (if 0 ≤ k then !(m.reg (rd + 1) ++ m.reg rd).msb &&
          ((m.reg (rd + 1) ++ m.reg rd) + BitVec.ofInt 16 k).msb
        else (m.reg (rd + 1) ++ m.reg rd).msb &&
          !((m.reg (rd + 1) ++ m.reg rd) + BitVec.ofInt 16 k).msb) := by
    split
    · exact (htop.not (by omega)).and htop'
    · exact htop.and (htop'.not (by omega))
  have hct : (if 0 ≤ k then (((s.reg rd).addWord (s.reg (rd + 1)) k).2.bit 7).not.and
        ((s.reg (rd + 1)).bit 7)
      else (((s.reg rd).addWord (s.reg (rd + 1)) k).2.bit 7).and
        ((s.reg (rd + 1)).bit 7).not).Tells sharp 0
      (if 0 ≤ k then !((m.reg (rd + 1) ++ m.reg rd) + BitVec.ofInt 16 k).msb &&
          (m.reg (rd + 1) ++ m.reg rd).msb
        else ((m.reg (rd + 1) ++ m.reg rd) + BitVec.ofInt 16 k).msb &&
          !(m.reg (rd + 1) ++ m.reg rd).msb) := by
    split
    · exact (htop'.not (by omega)).and htop
    · exact htop'.and (htop.not (by omega))
  exact ((((((h.setFlag hvt (by decide)).setFlag htop' (by decide)).setFlag hz (by decide)).setFlag
    hct (by decide)).setFlag (htop'.xor hvt) (by decide)).setReg hlo rd).setReg hhi (rd + 1)

end Unit

end StackDepth
