import Mathlib
import StackDepth.Proofs.Tribyte.Cover

/-!
# The order of knowledge

A three-valued byte is below another if the other covers every byte that it covers: it knows the same
bits or more. Every operation keeps this order. For arithmetic this needs no second look at carries. The
two extreme results of the smaller operands are results of operands that the larger ones cover, so the
larger result covers both of them, and the smaller result is what the two extremes agree on.

Main statements:

* `Tribyte.below_iff`: the order, position by position;
* `Tribyte.agree_below`: what two covered bytes agree on is below the value that covers them;
* `Tribyte.Below.add` and its kin, the logic, the shifts and the two questions;
* `Tribyte.BelowAt.eq_ofBool`: a condition that the larger value settles, the smaller one settles too.
-/

namespace StackDepth

namespace Tribyte

/-- If `b` knows position `n`, then `a` knows it too and holds the same bit. -/
def BelowAt (a b : Tribyte) (n : Nat) : Prop :=
  b.known.getLsbD n = true → a.known.getLsbD n = true ∧ a.held.getLsbD n = b.held.getLsbD n

/-- Every byte that `a` covers is covered by `b`. -/
def Below (a b : Tribyte) : Prop := ∀ c, a.Covers c → b.Covers c

variable {a a' b b' v v' e e' : Tribyte} {n : Nat} {x : Bool} {c d mask : Byte}

/-! ### The two extremes -/

theorem covers_ceil (v : Tribyte) : v.Covers v.ceil := by
  rw [covers_iff]
  intro n hn hk
  simp [getLsbD_ceil hn, hk]

theorem covers_floor (v : Tribyte) : v.Covers v.floor := by
  rw [covers_iff]
  intro n _ hk
  simp [getLsbD_floor, hk]

/-- Coverage of all bytes is inclusion of knowledge, position by position. A position that only the
larger value knows is told apart by the two extremes of the smaller one. -/
theorem below_iff : a.Below b ↔ ∀ n < 8, a.BelowAt b n := by
  constructor
  · intro h n hn hk
    have hceil := covers_iff.mp (h _ a.covers_ceil) n hn hk
    have hfloor := covers_iff.mp (h _ a.covers_floor) n hn hk
    rw [getLsbD_ceil hn] at hceil
    rw [getLsbD_floor] at hfloor
    cases hka : a.known.getLsbD n with
    | false =>
      rw [hka] at hceil hfloor
      rw [hfloor] at hceil
      simp at hceil
    | true =>
      rw [hka, Bool.and_true] at hfloor
      exact ⟨rfl, hfloor.symm⟩
  · intro h c hc
    rw [covers_iff] at hc ⊢
    intro n hn hk
    obtain ⟨hka, hheld⟩ := h n hn hk
    rw [← hheld]
    exact hc n hn hka

theorem Below.refl (v : Tribyte) : v.Below v := fun _ h => h

theorem Below.ceil (h : a.Below b) : b.Shows False a.ceil :=
  ⟨h _ a.covers_ceil, False.elim⟩

theorem Below.floor (h : a.Below b) : b.Shows False a.floor :=
  ⟨h _ a.covers_floor, False.elim⟩

theorem below_unknown (v : Tribyte) : v.Below unknown := fun c _ =>
  (shows_unknown not_false c).1

theorem belowAt_unknown (v : Tribyte) (n : Nat) : v.BelowAt unknown n := by
  intro hk
  simp [unknown] at hk

theorem BelowAt.refl (v : Tribyte) (n : Nat) : v.BelowAt v n := fun hk => ⟨hk, rfl⟩

/-- Nothing else is below a known value. -/
theorem Below.eq_of_isKnown (h : a.Below b) (hb : b.isKnown = true) : a = b := by
  rw [isKnown_iff] at hb
  rw [below_iff] at h
  refine Tribyte.ext (BitVec.eq_of_getLsbD_eq fun n hn => ?_) (BitVec.eq_of_getLsbD_eq fun n hn => ?_)
  · rw [(h n hn (hb n hn)).1, hb n hn]
  · exact (h n hn (hb n hn)).2

theorem BelowAt.ite {q : Prop} [Decidable q] (ha : a.BelowAt a' n) (hb : b.BelowAt b' n) :
    (if q then a else b).BelowAt (if q then a' else b') n := by
  split
  · exact ha
  · exact hb

theorem BelowAt.ceil (h : a.BelowAt b 0) : b.Tells False 0 (a.ceil.getLsbD 0) := by
  refine ⟨fun hk => ?_, False.elim⟩
  obtain ⟨hka, hheld⟩ := h hk
  rw [getLsbD_ceil (by decide), hka, hheld, Bool.not_true, Bool.or_false]

theorem BelowAt.floor (h : a.BelowAt b 0) : b.Tells False 0 (a.floor.getLsbD 0) := by
  refine ⟨fun hk => ?_, False.elim⟩
  obtain ⟨hka, hheld⟩ := h hk
  rw [getLsbD_floor, hka, hheld, Bool.and_true]

/-! ### Single positions -/

theorem Below.bit (h : a.Below b) (hn : n < 8) : (a.bit n).BelowAt (b.bit n) 0 := by
  simp only [BelowAt, known_bit hn, held_bit hn]
  exact below_iff.mp h n hn

theorem Below.setBit (h : v.Below v') (hb : b.BelowAt b' 0) (hn : n < 8) :
    (v.setBit n b).Below (v'.setBit n b') := by
  rw [below_iff] at h ⊢
  intro i hi
  simp only [BelowAt, known_setBit hn hi, held_setBit hn hi]
  by_cases hin : i = n
  · simp only [hin, if_true]
    exact hb
  · simp only [hin, if_false]
    exact h i hi

theorem Below.canon (h : a.Below b) : a.canon.Below b.canon := by
  rw [below_iff] at h ⊢
  intro n hn
  have hat := h n hn
  simp only [BelowAt, Tribyte.canon, make, BitVec.getLsbD_and] at hat ⊢
  grind

/-- Nothing is known or held outside position 0. -/
def Single (v : Tribyte) : Prop :=
  ∀ n < 8, 0 < n → v.known.getLsbD n = false ∧ v.held.getLsbD n = false

instance (v : Tribyte) : Decidable v.Single := Nat.decidableBallLT 8 _

theorem single_bit (v : Tribyte) (n : Nat) : (v.bit n).Single := by
  intro i hi hpos
  rw [Tribyte.bit, known_ofWord _ hi, held_ofWord _ hi, BitVec.getLsbD_and, BitVec.getLsbD_and,
    getLsbD_pairMask, getLsbD_pairMask]
  simp [show i ≠ 0 by omega, show i ≠ 8 by omega]

theorem Single.not (h : v.Single) : v.not.Single := by
  intro i hi hpos
  simp [Tribyte.not, make, (h i hi hpos).1]

theorem single_equal (a b : Tribyte) : (a.equal b).Single := by
  have hyes : yes.Single := by decide
  have hno : no.Single := by decide
  have hunknown : unknown.Single := by decide
  unfold Tribyte.equal
  split
  · exact hno
  · split
    · exact hyes
    · exact hunknown

/-- A condition that the larger value settles is settled by the smaller one. -/
theorem BelowAt.eq_ofBool (h : a.BelowAt b 0) (ha : a.Single) (hb : b = ofBool x) : a = ofBool x := by
  have hsingle : (ofBool x).Single := by
    cases x <;> decide
  have hknown : ∀ x, (ofBool x).known.getLsbD 0 = true := by decide
  subst hb
  obtain ⟨hk, hheld⟩ := h (hknown x)
  refine Tribyte.ext (BitVec.eq_of_getLsbD_eq fun n hn => ?_) (BitVec.eq_of_getLsbD_eq fun n hn => ?_)
  · rcases Nat.eq_zero_or_pos n with rfl | hpos
    · rw [hk, hknown]
    · rw [(ha n hn hpos).1, (hsingle n hn hpos).1]
  · rcases Nat.eq_zero_or_pos n with rfl | hpos
    · exact hheld
    · rw [(ha n hn hpos).2, (hsingle n hn hpos).2]

theorem Below.bit_ne_no (h : a.Below b) (hn : n < 8) (hne : a.bit n ≠ .no) : b.bit n ≠ .no := by
  intro hno
  exact hne ((h.bit hn).eq_ofBool (x := false) (single_bit a n) hno)

/-! ### Logic -/

theorem BelowAt.and (hn : n < 8) (ha : a.BelowAt a' n) (hb : b.BelowAt b' n) :
    (a.and b).BelowAt (a'.and b') n := by
  simp only [BelowAt, Tribyte.and, make, Tribyte.bits, zeros, BitVec.getLsbD_and, BitVec.getLsbD_or,
    BitVec.getLsbD_not] at ha hb ⊢
  grind

theorem BelowAt.or (hn : n < 8) (ha : a.BelowAt a' n) (hb : b.BelowAt b' n) :
    (a.or b).BelowAt (a'.or b') n := by
  simp only [BelowAt, Tribyte.or, make, Tribyte.bits, zeros, BitVec.getLsbD_and, BitVec.getLsbD_or,
    BitVec.getLsbD_not] at ha hb ⊢
  grind

theorem BelowAt.xor (ha : a.BelowAt a' n) (hb : b.BelowAt b' n) :
    (a.xor b).BelowAt (a'.xor b') n := by
  simp only [BelowAt, Tribyte.xor, make, Tribyte.bits, BitVec.getLsbD_and,
    BitVec.getLsbD_xor] at ha hb ⊢
  grind

theorem BelowAt.not (ha : a.BelowAt a' n) : a.not.BelowAt a'.not n := by
  simp only [BelowAt, Tribyte.not, make, Tribyte.bits, BitVec.getLsbD_and,
    BitVec.getLsbD_not] at ha ⊢
  grind

theorem Below.and (ha : a.Below a') (hb : b.Below b') : (a.and b).Below (a'.and b') := by
  rw [below_iff] at *
  exact fun n hn => (ha n hn).and hn (hb n hn)

theorem Below.or (ha : a.Below a') (hb : b.Below b') : (a.or b).Below (a'.or b') := by
  rw [below_iff] at *
  exact fun n hn => (ha n hn).or hn (hb n hn)

theorem Below.xor (ha : a.Below a') (hb : b.Below b') : (a.xor b).Below (a'.xor b') := by
  rw [below_iff] at *
  exact fun n hn => (ha n hn).xor (hb n hn)

theorem Below.not (ha : a.Below a') : a.not.Below a'.not := by
  rw [below_iff] at *
  exact fun n hn => (ha n hn).not

/-! ### Arithmetic -/

/-- What two covered bytes agree on is below the value that covers them. -/
theorem agree_below (hc : v.Covers c) (hd : v.Covers d)
    (hmask : ∀ n < 8, v.known.getLsbD n = true → mask.getLsbD n = true) :
    (agree c d mask).Below v := by
  rw [below_iff]
  intro n hn hk
  have hcn := covers_iff.mp hc n hn hk
  have hdn := covers_iff.mp hd n hn hk
  have hknown : (agree c d mask).known.getLsbD n = true := by
    rw [known_agree _ _ _ hn, hmask n hn hk, ← hcn, ← hdn]
    simp
  exact ⟨hknown, (held_agree _ _ _ hknown).trans hcn.symm⟩

theorem known_of_add (hn : n < 8) (h : (a.add b e).known.getLsbD n = true) :
    a.known.getLsbD n = true ∧ b.known.getLsbD n = true := by
  rw [Tribyte.add, known_agree _ _ _ hn, BitVec.getLsbD_and] at h
  simp only [Bool.and_eq_true] at h
  exact h.1

theorem Below.add (ha : a.Below a') (hb : b.Below b') (he : e.BelowAt e' 0) :
    (a.add b e).Below (a'.add b' e') := by
  have hceil := ha.ceil.add hb.ceil he.ceil
  have hfloor := ha.floor.add hb.floor he.floor
  rw [add_eq_agree]
  refine agree_below hceil.1 hfloor.1 fun n hn hk => ?_
  obtain ⟨hka, hkb⟩ := known_of_add hn hk
  rw [BitVec.getLsbD_and, (below_iff.mp ha n hn hka).1, (below_iff.mp hb n hn hkb).1, Bool.and_self]

theorem Below.sub (ha : a.Below a') (hb : b.Below b') (he : e.BelowAt e' 0) :
    (a.sub b e).Below (a'.sub b' e') := by
  rw [sub_eq_add_not, sub_eq_add_not]
  exact ha.add hb.not he.not

/-- Two results that are settled where one operand is known. -/
theorem Below.agree {c' d' : Byte} (h : a.Below a') (hc : (Tribyte.agree c' d' a'.known).Covers c)
    (hd : (Tribyte.agree c' d' a'.known).Covers d) :
    (Tribyte.agree c d a.known).Below (Tribyte.agree c' d' a'.known) := by
  refine agree_below hc hd fun n hn hk => ?_
  rw [known_agree _ _ _ hn, Bool.and_eq_true] at hk
  exact (below_iff.mp h n hn hk.1).1

theorem Below.inc (h : a.Below a') : a.inc.Below a'.inc := h.agree h.ceil.inc.1 h.floor.inc.1

theorem Below.dec (h : a.Below a') : a.dec.Below a'.dec := h.agree h.ceil.dec.1 h.floor.dec.1

theorem Below.addWord (ha : a.Below a') (hb : b.Below b') (k : Int) :
    (Tribyte.addWord a b k).1.Below (Tribyte.addWord a' b' k).1 ∧
      (Tribyte.addWord a b k).2.Below (Tribyte.addWord a' b' k).2 := by
  have hceil := ha.ceil.addWord hb.ceil k
  have hfloor := ha.floor.addWord hb.floor k
  exact ⟨ha.agree hceil.1.1 hfloor.1.1, hb.agree hceil.2.1 hfloor.2.1⟩

/-! ### Shifts -/

theorem Below.shiftLeft (h : v.Below v') (he : e.BelowAt e' 0) :
    (v.shiftLeft e).Below (v'.shiftLeft e') := by
  refine Below.setBit (below_iff.mpr fun n hn => ?_) he (by decide)
  have hat := below_iff.mp h (n - 1) (by omega)
  simp only [BelowAt, make, Tribyte.bits, BitVec.getLsbD_shiftLeft, BitVec.getLsbD_and] at hat ⊢
  grind

theorem Below.shiftRight (h : v.Below v') (he : e.BelowAt e' 0) :
    (v.shiftRight e).Below (v'.shiftRight e') := by
  refine Below.setBit (below_iff.mpr fun n hn => ?_) he (by decide)
  have hat := below_iff.mp h (1 + n)
  simp only [BelowAt, make, Tribyte.bits, BitVec.getLsbD_ushiftRight, BitVec.getLsbD_and] at hat ⊢
  grind

theorem Below.swap (h : v.Below v') : v.swap.Below v'.swap := by
  rw [below_iff] at h ⊢
  intro n hn
  have hlow := h (n - 4)
  have hhigh := h (4 + n)
  simp only [BelowAt, Tribyte.swap, make, Tribyte.bits, BitVec.getLsbD_or, BitVec.getLsbD_and,
    BitVec.getLsbD_shiftLeft, BitVec.getLsbD_ushiftRight] at hlow hhigh ⊢
  grind

/-! ### Questions -/

theorem Below.isZero (h : v.Below v') : v.isZero.BelowAt v'.isZero 0 := by
  intro hk
  by_cases hzero : v' = zero
  · rw [h.eq_of_isKnown (by rw [hzero]; rfl)]
    exact ⟨hk, rfl⟩
  · have hbits : v'.bits ≠ 0#8 := by
      intro hbits
      simp [Tribyte.isZero, hzero, hbits, unknown] at hk
    have hfloor : v.bits ≠ 0#8 := by
      intro hv
      have hcover : v.floor &&& v'.known = v'.bits := h.floor.1
      rw [Tribyte.floor, hv, BitVec.zero_and] at hcover
      exact hbits hcover.symm
    have hne : v ≠ zero := by
      rintro rfl
      exact hfloor (by decide)
    rw [Tribyte.isZero, if_neg hne, if_pos hfloor, Tribyte.isZero, if_neg hzero, if_pos hbits]
    exact ⟨rfl, rfl⟩

theorem Below.equal (ha : a.Below a') (hb : b.Below b') : (a.equal b).BelowAt (a'.equal b') 0 := by
  intro hk
  by_cases hdiff : (a'.bits ^^^ b'.bits) &&& (a'.known &&& b'.known) = 0#8
  · have hknown : (a'.isKnown && b'.isKnown) = true := by
      by_contra hopen
      simp [Tribyte.equal, hdiff, hopen, unknown] at hk
    rw [Bool.and_eq_true] at hknown
    rw [ha.eq_of_isKnown hknown.1, hb.eq_of_isKnown hknown.2]
    exact ⟨hk, rfl⟩
  · have hdiff' : (a.bits ^^^ b.bits) &&& (a.known &&& b.known) ≠ 0#8 := by
      intro hsame
      refine hdiff (BitVec.eq_of_getLsbD_eq fun n hn => ?_)
      have hn' := congrArg (fun w : Byte => w.getLsbD n) hsame
      have hat := below_iff.mp ha n hn
      have hbt := below_iff.mp hb n hn
      simp only [BelowAt, Tribyte.bits, BitVec.getLsbD_and, BitVec.getLsbD_xor,
        BitVec.getLsbD_zero] at hn' hat hbt ⊢
      grind
    rw [Tribyte.equal, if_pos hdiff', Tribyte.equal, if_pos hdiff]
    exact ⟨rfl, rfl⟩

end Tribyte

end StackDepth
