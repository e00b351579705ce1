import Mathlib
import StackDepth.Tribyte.Basic

/-!
# What the operations on three-valued bytes show

A value is compared with a concrete byte bit by bit. `Tribyte.Tells` says that one position agrees with
a truth value, `Tribyte.Shows` that all eight agree with a byte. Both carry a proposition `sharp`: where
it holds, nothing is left open. With `sharp` false they are plain coverage, with `sharp` true they say
that the value is the byte itself, so that one proof for each operation gives both its soundness and its
exactness on known operands.

Main statements:

* `Tribyte.tells_bit` and `Tribyte.Shows.setBit`: reading and replacing a single position;
* `Tribyte.Shows.add`, `Tribyte.Shows.sub`, `Tribyte.Shows.addWord`: arithmetic, from the fact that a
  carry lies between the carries of the two extreme sums;
* `Tribyte.Tells.and` and its kin, the shifts, and the two questions `isZero` and `equal`.
-/

namespace StackDepth

/-! ### Carries between two extremes -/

section Carry

variable {w : Nat} {x x' y y' : BitVec w} {c c' : Bool}

theorem carry_le_carry (hx : ∀ j, x.getLsbD j ≤ x'.getLsbD j)
    (hy : ∀ j, y.getLsbD j ≤ y'.getLsbD j) (hc : c ≤ c') :
    ∀ i, BitVec.carry i x y c ≤ BitVec.carry i x' y' c' := by
  intro i
  induction i with
  | zero => simpa only [BitVec.carry_zero] using hc
  | succ i ih =>
    rw [BitVec.carry_succ, BitVec.carry_succ]
    have hxi := hx i
    have hyi := hy i
    revert hxi hyi ih
    generalize x.getLsbD i = p, x'.getLsbD i = p', y.getLsbD i = q, y'.getLsbD i = q',
      BitVec.carry i x y c = r, BitVec.carry i x' y' c' = r'
    decide +revert

/-- `x` lies between `lo` and `hi` in every bit. -/
def Between (lo x hi : BitVec w) : Prop :=
  ∀ j, lo.getLsbD j ≤ x.getLsbD j ∧ x.getLsbD j ≤ hi.getLsbD j

theorem between_self (x : BitVec w) : Between x x x := fun _ => ⟨le_refl _, le_refl _⟩

/-- A bit that both operands settle and on which the two extreme sums agree is the bit of every sum in
between. -/
theorem getLsbD_add_of_extremes {lx hx ly hy : BitVec w} {lc hc : Bool} {i : Nat} (hi : i < w)
    (bx : Between lx x hx) (bY : Between ly y hy) (bc : lc ≤ c ∧ c ≤ hc)
    (ex : lx.getLsbD i = hx.getLsbD i) (ey : ly.getLsbD i = hy.getLsbD i)
    (h : (hx + hy + (BitVec.ofBool hc).setWidth w).getLsbD i
      = (lx + ly + (BitVec.ofBool lc).setWidth w).getLsbD i) :
    (x + y + (BitVec.ofBool c).setWidth w).getLsbD i
      = (hx + hy + (BitVec.ofBool hc).setWidth w).getLsbD i := by
  have hlow := carry_le_carry (fun j => (bx j).1) (fun j => (bY j).1) bc.1 i
  have hhigh := carry_le_carry (fun j => (bx j).2) (fun j => (bY j).2) bc.2 i
  have hxi := bx i
  have hyi := bY i
  simp only [BitVec.getLsbD_add_add_bool hi] at h ⊢
  revert h hlow hhigh hxi hyi ex ey
  generalize lx.getLsbD i = a, x.getLsbD i = b, hx.getLsbD i = d, ly.getLsbD i = e,
    y.getLsbD i = f, hy.getLsbD i = g, BitVec.carry i lx ly lc = r, BitVec.carry i x y c = s,
    BitVec.carry i hx hy hc = t
  decide +revert

end Carry

namespace Tribyte

/-! ### Single positions -/

/-- Position `n` agrees with the truth value `x` if it is known, and it is known if `sharp` holds. -/
def Tells (sharp : Prop) (v : Tribyte) (n : Nat) (x : Bool) : Prop :=
  (v.known.getLsbD n = true → v.held.getLsbD n = x) ∧ (sharp → v.known.getLsbD n = true)

/-- The value covers the byte, and leaves no bit open if `sharp` holds. -/
def Shows (sharp : Prop) (v : Tribyte) (c : Byte) : Prop :=
  v.Covers c ∧ (sharp → v.isKnown = true)

variable {sharp : Prop} {a b v e : Tribyte} {x y z : Bool} {n i : Nat} {c d : Byte}

theorem covers_iff :
    v.Covers c ↔ ∀ n < 8, v.known.getLsbD n = true → v.held.getLsbD n = c.getLsbD n := by
  constructor
  · intro h n _ hk
    have hn := congrArg (fun w : Byte => w.getLsbD n) h
    simp only [bits, BitVec.getLsbD_and, hk, Bool.and_true] at hn
    exact hn.symm
  · intro h
    apply BitVec.eq_of_getLsbD_eq
    intro n hn
    simp only [bits, BitVec.getLsbD_and]
    cases hk : v.known.getLsbD n with
    | false => simp
    | true => simp [h n hn hk]

theorem isKnown_iff : v.isKnown = true ↔ ∀ n < 8, v.known.getLsbD n = true := by
  have hall : ∀ n < 8, (255#8).getLsbD n = true := by decide
  simp only [isKnown, beq_iff_eq]
  constructor
  · intro h n hn
    rw [h]
    exact hall n hn
  · intro h
    apply BitVec.eq_of_getLsbD_eq
    intro n hn
    rw [h n hn, hall n hn]

theorem shows_iff : v.Shows sharp c ↔ ∀ n < 8, v.Tells sharp n (c.getLsbD n) := by
  simp only [Shows, Tells, covers_iff, isKnown_iff]
  constructor
  · intro h n hn
    exact ⟨h.1 n hn, fun hs => h.2 hs n hn⟩
  · intro h
    exact ⟨fun n hn => (h n hn).1, fun hs n hn => (h n hn).2 hs⟩

theorem getLsbD_toWord (v : Tribyte) (i : Nat) :
    v.toWord.getLsbD i = if i < 8 then v.held.getLsbD i else v.known.getLsbD (i - 8) :=
  BitVec.getLsbD_append

theorem known_ofWord (w : BitVec 16) (hi : i < 8) :
    (ofWord w).known.getLsbD i = w.getLsbD (8 + i) := by
  simp [ofWord, hi]

theorem held_ofWord (w : BitVec 16) (hi : i < 8) : (ofWord w).held.getLsbD i = w.getLsbD i := by
  simp [ofWord, hi]

/-- The mask that picks one position out of each half of a word. -/
theorem getLsbD_pairMask (i : Nat) :
    (0x0101#16).getLsbD i = (decide (i = 0) || decide (i = 8)) := by
  by_cases h : i < 16
  · interval_cases i <;> rfl
  · rw [BitVec.getLsbD_of_ge _ _ (by omega)]
    simp only [Bool.false_eq, Bool.or_eq_false_iff, decide_eq_false_iff_not]
    omega

theorem known_bit (hn : n < 8) : (v.bit n).known.getLsbD 0 = v.known.getLsbD n := by
  rw [bit, known_ofWord _ (by omega), BitVec.getLsbD_and, getLsbD_pairMask,
    BitVec.getLsbD_ushiftRight, getLsbD_toWord]
  simp only [Nat.add_zero, show ¬ n + 8 < 8 by omega, show n + 8 - 8 = n by omega]
  simp

theorem held_bit (hn : n < 8) : (v.bit n).held.getLsbD 0 = v.held.getLsbD n := by
  rw [bit, held_ofWord _ (by omega), BitVec.getLsbD_and, getLsbD_pairMask,
    BitVec.getLsbD_ushiftRight, getLsbD_toWord]
  simp [hn]

theorem known_setBit (hn : n < 8) (hi : i < 8) :
    (v.setBit n b).known.getLsbD i = if i = n then b.known.getLsbD 0 else v.known.getLsbD i := by
  rw [setBit, known_ofWord _ hi]
  simp only [BitVec.getLsbD_or, BitVec.getLsbD_and, BitVec.getLsbD_not, BitVec.getLsbD_shiftLeft,
    getLsbD_toWord, getLsbD_pairMask, show 8 + i < 16 by omega, show ¬ 8 + i < n by omega,
    show ¬ 8 + i < 8 by omega, show 8 + i - 8 = i by omega, show ¬ 8 + i - n = 0 by omega]
  by_cases h : i = n
  · simp [h]
  · simp [h, show ¬ 8 + i - n = 8 by omega]

theorem held_setBit (hn : n < 8) (hi : i < 8) :
    (v.setBit n b).held.getLsbD i = if i = n then b.held.getLsbD 0 else v.held.getLsbD i := by
  rw [setBit, held_ofWord _ hi]
  simp only [BitVec.getLsbD_or, BitVec.getLsbD_and, BitVec.getLsbD_not, BitVec.getLsbD_shiftLeft,
    getLsbD_toWord, getLsbD_pairMask, show i < 16 by omega, hi, show ¬ i - n = 8 by omega]
  by_cases h : i = n
  · simp [h]
  · by_cases hlt : i < n
    · simp [h, hlt]
    · simp [h, show ¬ i - n = 0 by omega]

theorem tells_bit (hn : n < 8) : (v.bit n).Tells sharp 0 x ↔ v.Tells sharp n x := by
  simp only [Tells, known_bit hn, held_bit hn]

theorem Shows.bit (h : v.Shows sharp c) (hn : n < 8) :
    (v.bit n).Tells sharp 0 (c.getLsbD n) :=
  (tells_bit hn).mpr (shows_iff.mp h n hn)

theorem Shows.msb (h : v.Shows sharp c) : (v.bit 7).Tells sharp 0 c.msb := by
  rw [BitVec.msb_eq_getLsbD_last]
  exact h.bit (by omega)

theorem tells_yes : yes.Tells sharp 0 true := ⟨fun _ => rfl, fun _ => rfl⟩

theorem tells_no : no.Tells sharp 0 false := ⟨fun _ => rfl, fun _ => rfl⟩

theorem tells_ofBool (x : Bool) : (ofBool x).Tells sharp 0 x := by
  cases x with
  | false => exact tells_no
  | true => exact tells_yes

theorem tells_unknown (h : ¬ sharp) (n : Nat) (x : Bool) : unknown.Tells sharp n x := by
  refine ⟨fun hk => ?_, fun hs => absurd hs h⟩
  simp [unknown] at hk

theorem shows_ofByte (c : Byte) : (ofByte c).Shows sharp c := by
  refine ⟨?_, fun _ => rfl⟩
  simp only [Covers, ofByte, Tribyte.bits]

theorem shows_zero : zero.Shows sharp 0#8 := shows_ofByte 0#8

theorem shows_unknown (h : ¬ sharp) (c : Byte) : unknown.Shows sharp c :=
  shows_iff.mpr fun n _ => tells_unknown h n _

theorem Shows.canon (h : v.Shows sharp c) : v.canon.Shows sharp c := by
  rw [shows_iff] at h ⊢
  intro n hn
  have hv := h n hn
  simp only [Tells, Tribyte.canon, make, BitVec.getLsbD_and] at hv ⊢
  grind

/-- A known value that covers a byte holds that byte. -/
theorem Shows.bits_eq (h : v.Shows True c) : v.bits = c := by
  have hk : v.known = 255#8 := by simpa only [isKnown, beq_iff_eq] using h.2 trivial
  have hc : c &&& v.known = v.bits := h.1
  rw [← hc, hk]
  exact BitVec.and_allOnes

/-! ### Replacing a position -/

/-- The byte with bit `n` replaced. -/
theorem getLsbD_replace (c : Byte) (hn : n < 8) (hi : i < 8) :
    (if x then c ||| (1#8 <<< n) else c &&& ~~~(1#8 <<< n)).getLsbD i
      = if i = n then x else c.getLsbD i := by
  have hone : (1#8 <<< n).getLsbD i = decide (i = n) := by
    rw [BitVec.getLsbD_shiftLeft, BitVec.getLsbD_one]
    by_cases h : i = n
    · simp [h, hn]
    · by_cases hlt : i < n
      · simp [h, hlt]
      · simp [h, show ¬ i - n = 0 by omega]
  cases x with
  | false =>
    simp only [Bool.false_eq_true, if_false, BitVec.getLsbD_and, BitVec.getLsbD_not, hi, hone]
    by_cases h : i = n <;> simp [h]
  | true =>
    simp only [if_true, BitVec.getLsbD_or, hone]
    by_cases h : i = n <;> simp [h]

theorem Shows.setBit (h : v.Shows sharp c) (hb : b.Tells sharp 0 x) (hn : n < 8) :
    (v.setBit n b).Shows sharp (if x then c ||| (1#8 <<< n) else c &&& ~~~(1#8 <<< n)) := by
  rw [shows_iff] at h ⊢
  intro i hi
  rw [getLsbD_replace c hn hi]
  simp only [Tells, known_setBit hn hi, held_setBit hn hi]
  by_cases hin : i = n
  · simp only [hin, if_true]
    exact hb
  · simp only [hin, if_false]
    exact h i hi

/-! ### Logic -/

theorem Tells.and (ha : a.Tells sharp n x) (hb : b.Tells sharp n y) :
    (a.and b).Tells sharp n (x && y) := by
  simp only [Tells, Tribyte.and, make, Tribyte.bits, zeros, BitVec.getLsbD_and, BitVec.getLsbD_or,
    BitVec.getLsbD_not] at ha hb ⊢
  grind

theorem Tells.or (hn : n < 8) (ha : a.Tells sharp n x) (hb : b.Tells sharp n y) :
    (a.or b).Tells sharp n (x || y) := by
  simp only [Tells, Tribyte.or, make, Tribyte.bits, zeros, BitVec.getLsbD_and, BitVec.getLsbD_or,
    BitVec.getLsbD_not] at ha hb ⊢
  grind

theorem Tells.xor (ha : a.Tells sharp n x) (hb : b.Tells sharp n y) :
    (a.xor b).Tells sharp n (x ^^ y) := by
  simp only [Tells, Tribyte.xor, make, Tribyte.bits, BitVec.getLsbD_and,
    BitVec.getLsbD_xor] at ha hb ⊢
  grind

theorem Tells.not (hn : n < 8) (ha : a.Tells sharp n x) : a.not.Tells sharp n (!x) := by
  simp only [Tells, Tribyte.not, make, Tribyte.bits, BitVec.getLsbD_and,
    BitVec.getLsbD_not] at ha ⊢
  grind

theorem Shows.and (ha : a.Shows sharp c) (hb : b.Shows sharp d) :
    (a.and b).Shows sharp (c &&& d) := by
  rw [shows_iff] at *
  intro n hn
  rw [BitVec.getLsbD_and]
  exact (ha n hn).and (hb n hn)

theorem Shows.or (ha : a.Shows sharp c) (hb : b.Shows sharp d) :
    (a.or b).Shows sharp (c ||| d) := by
  rw [shows_iff] at *
  intro n hn
  rw [BitVec.getLsbD_or]
  exact (ha n hn).or hn (hb n hn)

theorem Shows.xor (ha : a.Shows sharp c) (hb : b.Shows sharp d) :
    (a.xor b).Shows sharp (c ^^^ d) := by
  rw [shows_iff] at *
  intro n hn
  rw [BitVec.getLsbD_xor]
  exact (ha n hn).xor (hb n hn)

theorem Shows.not (ha : a.Shows sharp c) : a.not.Shows sharp (~~~c) := by
  rw [shows_iff] at *
  intro n hn
  rw [BitVec.getLsbD_not, decide_eq_true hn, Bool.true_and]
  exact (ha n hn).not hn

/-! ### Arithmetic -/

/-- The byte with a truth value in bit 0. -/
abbrev unit (x : Bool) : Byte := (BitVec.ofBool x).setWidth 8

theorem getLsbD_ceil (hn : n < 8) :
    v.ceil.getLsbD n = (v.held.getLsbD n || !v.known.getLsbD n) := by
  simp only [ceil, Tribyte.bits, BitVec.getLsbD_or, BitVec.getLsbD_and, BitVec.getLsbD_not, hn,
    decide_true, Bool.true_and]
  cases v.held.getLsbD n <;> cases v.known.getLsbD n <;> rfl

theorem getLsbD_floor : v.floor.getLsbD n = (v.held.getLsbD n && v.known.getLsbD n) := by
  simp only [floor, Tribyte.bits, BitVec.getLsbD_and]

theorem Tells.extremes (hn : n < 8) (h : v.Tells sharp n x) :
    v.floor.getLsbD n ≤ x ∧ x ≤ v.ceil.getLsbD n := by
  rw [getLsbD_ceil hn, getLsbD_floor]
  have hk := h.1
  clear h
  revert hk x
  generalize v.held.getLsbD n = p, v.known.getLsbD n = q
  revert p q
  decide

theorem Shows.between (h : v.Shows sharp c) : Between v.floor c v.ceil := by
  intro j
  by_cases hj : j < 8
  · exact (shows_iff.mp h j hj).extremes hj
  · simp only [BitVec.getLsbD_of_ge _ j (Nat.le_of_not_lt hj), le_refl, and_self]

theorem floor_eq_ceil_of_known (hn : n < 8) (h : v.known.getLsbD n = true) :
    v.floor.getLsbD n = v.ceil.getLsbD n := by
  rw [getLsbD_ceil hn, getLsbD_floor, h]
  simp

theorem floor_eq_ceil (h : v.isKnown = true) : v.floor = v.ceil :=
  BitVec.eq_of_getLsbD_eq fun n hn => floor_eq_ceil_of_known hn (isKnown_iff.mp h n hn)

theorem known_agree (x y mask : Byte) (hn : n < 8) :
    (agree x y mask).known.getLsbD n = (mask.getLsbD n && (x.getLsbD n == y.getLsbD n)) := by
  simp only [agree, make, BitVec.getLsbD_and, BitVec.getLsbD_not, BitVec.getLsbD_xor, hn,
    decide_true, Bool.true_and]
  cases x.getLsbD n <;> cases y.getLsbD n <;> rfl

theorem held_agree (x y mask : Byte) (h : (agree x y mask).known.getLsbD n = true) :
    (agree x y mask).held.getLsbD n = x.getLsbD n := by
  simp only [agree, make, BitVec.getLsbD_and] at h ⊢
  rw [h, Bool.and_true]

/-- A sum is what the sums of the two ends agree on. -/
theorem add_eq_agree (a b e : Tribyte) :
    a.add b e = agree (a.ceil + b.ceil + unit (e.ceil.getLsbD 0))
      (a.floor + b.floor + unit (e.floor.getLsbD 0)) (a.known &&& b.known) := by
  simp only [Tribyte.add, unit, BitVec.and_one_eq_setWidth_ofBool_getLsbD]

theorem Shows.add (ha : a.Shows sharp c) (hb : b.Shows sharp d) (he : e.Tells sharp 0 z) :
    (a.add b e).Shows sharp (c + d + unit z) := by
  rw [shows_iff]
  intro n hn
  rw [add_eq_agree]
  constructor
  · intro hk
    rw [held_agree _ _ _ hk]
    rw [known_agree _ _ _ hn, BitVec.getLsbD_and, Bool.and_eq_true, Bool.and_eq_true, beq_iff_eq]
      at hk
    obtain ⟨⟨hka, hkb⟩, hsum⟩ := hk
    exact (getLsbD_add_of_extremes hn ha.between hb.between (he.extremes (by omega))
      (floor_eq_ceil_of_known hn hka) (floor_eq_ceil_of_known hn hkb) hsum).symm
  · intro hs
    rw [known_agree _ _ _ hn, floor_eq_ceil (ha.2 hs), floor_eq_ceil (hb.2 hs),
      floor_eq_ceil_of_known (by omega) (he.2 hs), BitVec.getLsbD_and,
      isKnown_iff.mp (ha.2 hs) n hn, isKnown_iff.mp (hb.2 hs) n hn]
    simp

theorem ceil_not (v : Tribyte) : v.not.ceil = ~~~v.floor := by
  apply BitVec.eq_of_getLsbD_eq
  intro n hn
  simp only [ceil, floor, Tribyte.not, make, Tribyte.bits, BitVec.getLsbD_or, BitVec.getLsbD_and,
    BitVec.getLsbD_not, hn, decide_true, Bool.true_and]
  cases v.held.getLsbD n <;> cases v.known.getLsbD n <;> rfl

theorem floor_not (v : Tribyte) : v.not.floor = ~~~v.ceil := by
  apply BitVec.eq_of_getLsbD_eq
  intro n hn
  simp only [ceil, floor, Tribyte.not, make, Tribyte.bits, BitVec.getLsbD_or, BitVec.getLsbD_and,
    BitVec.getLsbD_not, hn, decide_true, Bool.true_and]
  cases v.held.getLsbD n <;> cases v.known.getLsbD n <;> rfl

theorem sub_sub_unit (p q : Byte) (x : Bool) : p - q - unit x = p + ~~~q + unit (!x) := by
  cases x with
  | false =>
    simp only [unit, BitVec.ofBool_false, Bool.not_false, BitVec.ofBool_true]
    bv_omega
  | true =>
    simp only [unit, BitVec.ofBool_false, Bool.not_true, BitVec.ofBool_true]
    bv_omega

/-- A difference is the sum with the complement of the subtrahend and of the borrow. -/
theorem sub_eq_add_not (a b e : Tribyte) : a.sub b e = a.add b.not e.not := by
  simp only [Tribyte.sub, Tribyte.add, ceil_not, floor_not,
    BitVec.and_one_eq_setWidth_ofBool_getLsbD, BitVec.getLsbD_not, Nat.zero_lt_succ, decide_true,
    Bool.true_and]
  rw [← sub_sub_unit, ← sub_sub_unit]
  rfl

theorem Shows.sub (ha : a.Shows sharp c) (hb : b.Shows sharp d) (he : e.Tells sharp 0 z) :
    (a.sub b e).Shows sharp (c - d - unit z) := by
  rw [sub_eq_add_not, sub_sub_unit]
  exact ha.add hb.not (he.not (by omega))

theorem inc_eq_add (a : Tribyte) : a.inc = a.add zero yes := by
  simp only [Tribyte.inc, Tribyte.add, show zero.ceil = 0#8 from rfl,
    show zero.floor = 0#8 from rfl, show zero.known = 255#8 from rfl,
    show yes.ceil &&& 1#8 = 1#8 from rfl, show yes.floor &&& 1#8 = 1#8 from rfl, BitVec.add_zero]
  rw [show a.known &&& 255#8 = a.known from BitVec.and_allOnes]

theorem dec_eq_sub (a : Tribyte) : a.dec = a.sub zero yes := by
  simp only [Tribyte.dec, Tribyte.sub, show zero.ceil = 0#8 from rfl,
    show zero.floor = 0#8 from rfl, show zero.known = 255#8 from rfl,
    show yes.ceil &&& 1#8 = 1#8 from rfl, show yes.floor &&& 1#8 = 1#8 from rfl, BitVec.sub_zero]
  rw [show a.known &&& 255#8 = a.known from BitVec.and_allOnes]

theorem Shows.inc (ha : a.Shows sharp c) : a.inc.Shows sharp (c + 1#8) := by
  rw [inc_eq_add]
  simpa using ha.add shows_zero tells_yes

theorem Shows.dec (ha : a.Shows sharp c) : a.dec.Shows sharp (c - 1#8) := by
  rw [dec_eq_sub]
  simpa using ha.sub shows_zero tells_yes

theorem getLsbD_pair (p q : Byte) (n : Nat) :
    (p ++ q).getLsbD n = if n < 8 then q.getLsbD n else p.getLsbD (n - 8) :=
  BitVec.getLsbD_append

theorem between_pair {lp p hp lq q hq : Byte} (bp : Between lp p hp) (bq : Between lq q hq) :
    Between (lp ++ lq) (p ++ q) (hp ++ hq) := by
  intro j
  simp only [getLsbD_pair]
  by_cases hj : j < 8
  · simpa only [hj, if_true] using bq j
  · simpa only [hj, if_false] using bp (j - 8)

/-- The sum of a pair of values and a constant shows the sum of the word, bit by bit. -/
theorem addWord_extremes {lo hi : Tribyte} {l h : Byte} (k : BitVec 16)
    (hlo : lo.Shows sharp l) (hhi : hi.Shows sharp h) {i : Nat} (hi16 : i < 16)
    (hfix : (hi.floor ++ lo.floor).getLsbD i = (hi.ceil ++ lo.ceil).getLsbD i)
    (hsum : ((hi.ceil ++ lo.ceil) + k).getLsbD i = ((hi.floor ++ lo.floor) + k).getLsbD i) :
    ((h ++ l) + k).getLsbD i = ((hi.ceil ++ lo.ceil) + k).getLsbD i := by
  have hword := between_pair hhi.between hlo.between
  have hcarry : false ≤ false ∧ false ≤ false := ⟨le_refl _, le_refl _⟩
  have hbit := getLsbD_add_of_extremes hi16 hword (between_self k) hcarry hfix rfl
  rw [show (BitVec.ofBool false).setWidth 16 = 0#16 from rfl] at hbit
  simp only [BitVec.add_zero] at hbit
  exact hbit hsum

theorem Shows.addWord {lo hi : Tribyte} {l h : Byte} (hlo : lo.Shows sharp l)
    (hhi : hi.Shows sharp h) (k : Int) :
    (Tribyte.addWord lo hi k).1.Shows sharp (((h ++ l) + BitVec.ofInt 16 k).extractLsb' 0 8) ∧
      (Tribyte.addWord lo hi k).2.Shows sharp (((h ++ l) + BitVec.ofInt 16 k).extractLsb' 8 8) := by
  simp only [Tribyte.addWord]
  constructor
  · rw [shows_iff]
    intro n hn
    constructor
    · intro hk
      rw [held_agree _ _ _ hk]
      rw [known_agree _ _ _ hn, Bool.and_eq_true, beq_iff_eq] at hk
      simp only [BitVec.getLsbD_extractLsb', hn, decide_true, Bool.true_and, Nat.zero_add] at hk ⊢
      refine (addWord_extremes _ hlo hhi (by omega) ?_ hk.2).symm
      simp only [getLsbD_pair, hn, if_true]
      exact floor_eq_ceil_of_known hn hk.1
    · intro hs
      rw [known_agree _ _ _ hn, floor_eq_ceil (hlo.2 hs), floor_eq_ceil (hhi.2 hs),
        isKnown_iff.mp (hlo.2 hs) n hn]
      simp
  · rw [shows_iff]
    intro n hn
    constructor
    · intro hk
      rw [held_agree _ _ _ hk]
      rw [known_agree _ _ _ hn, Bool.and_eq_true, beq_iff_eq] at hk
      simp only [BitVec.getLsbD_extractLsb', hn, decide_true, Bool.true_and] at hk ⊢
      refine (addWord_extremes _ hlo hhi (by omega) ?_ hk.2).symm
      simp only [getLsbD_pair, show ¬ 8 + n < 8 by omega, if_false, show 8 + n - 8 = n by omega]
      exact floor_eq_ceil_of_known hn hk.1
    · intro hs
      rw [known_agree _ _ _ hn, floor_eq_ceil (hlo.2 hs), floor_eq_ceil (hhi.2 hs),
        isKnown_iff.mp (hhi.2 hs) n hn]
      simp

/-! ### Shifts -/

theorem getLsbD_shiftLeft_or (c : Byte) (x : Bool) (hn : n < 8) :
    ((c <<< 1) ||| BitVec.ofNat 8 x.toNat).getLsbD n = if n = 0 then x else c.getLsbD (n - 1) := by
  cases x <;> simp [hn] <;> grind

theorem Shows.shiftLeft (h : v.Shows sharp c) (he : e.Tells sharp 0 x) :
    (v.shiftLeft e).Shows sharp ((c <<< 1) ||| BitVec.ofNat 8 x.toNat) := by
  rw [shows_iff] at h ⊢
  intro n hn
  rw [getLsbD_shiftLeft_or c x hn]
  simp only [Tribyte.shiftLeft, Tells, known_setBit (show 0 < 8 by omega) hn,
    held_setBit (show 0 < 8 by omega) hn]
  by_cases hzero : n = 0
  · simp only [hzero, if_true]
    exact he
  · have hv := h (n - 1) (by omega)
    simp only [Tells] at hv
    simp only [hzero, if_false, make, Tribyte.bits, BitVec.getLsbD_shiftLeft, BitVec.getLsbD_and]
    grind

theorem getLsbD_shiftRight_or (c : Byte) (x : Bool) (hn : n < 8) :
    ((c >>> 1) ||| (if x then 0x80#8 else 0#8)).getLsbD n = if n = 7 then x else c.getLsbD (1 + n) := by
  have htop : (0x80#8).getLsbD n = decide (n = 7) := by
    interval_cases n <;> rfl
  rw [BitVec.getLsbD_or, BitVec.getLsbD_ushiftRight]
  by_cases hseven : n = 7
  · rw [BitVec.getLsbD_of_ge c (1 + n) (by omega), if_pos hseven, Bool.false_or]
    cases x with
    | false => simp
    | true => rw [if_pos rfl, htop, decide_eq_true hseven]
  · rw [if_neg hseven]
    cases x with
    | false => simp
    | true => rw [if_pos rfl, htop, decide_eq_false hseven, Bool.or_false]

theorem Shows.shiftRight (h : v.Shows sharp c) (he : e.Tells sharp 0 x) :
    (v.shiftRight e).Shows sharp ((c >>> 1) ||| (if x then 0x80#8 else 0#8)) := by
  rw [shows_iff] at h ⊢
  intro n hn
  rw [getLsbD_shiftRight_or c x hn]
  simp only [Tribyte.shiftRight, Tells, known_setBit (show 7 < 8 by omega) hn,
    held_setBit (show 7 < 8 by omega) hn]
  by_cases hseven : n = 7
  · simp only [hseven, if_true]
    exact he
  · have hv := h (1 + n) (by omega)
    simp only [Tells] at hv
    simp only [hseven, if_false, make, Tribyte.bits, BitVec.getLsbD_ushiftRight,
      BitVec.getLsbD_and]
    grind

theorem Shows.swap (h : v.Shows sharp c) :
    v.swap.Shows sharp ((c <<< 4) ||| (c >>> 4)) := by
  rw [shows_iff] at h ⊢
  intro n hn
  have hlow := h (n - 4)
  have hhigh := h (4 + n)
  simp only [Tells, Tribyte.swap, make, Tribyte.bits, BitVec.getLsbD_or, BitVec.getLsbD_and,
    BitVec.getLsbD_shiftLeft, BitVec.getLsbD_ushiftRight] at hlow hhigh ⊢
  grind

/-! ### Questions -/

theorem Shows.isZero (h : v.Shows sharp c) : v.isZero.Tells sharp 0 (c == 0#8) := by
  have hcover : c &&& v.known = v.bits := h.1
  simp only [Tribyte.isZero]
  split
  · rename_i hzero
    have hc : c = 0#8 := by
      rw [hzero] at hcover
      rw [← show c &&& 255#8 = c from BitVec.and_allOnes]
      exact hcover
    rw [hc]
    exact tells_yes
  · rename_i hzero
    split
    · rename_i hbits
      have hc : (c == 0#8) = false := by
        rw [beq_eq_false_iff_ne]
        intro hc
        rw [hc, BitVec.zero_and] at hcover
        exact hbits hcover.symm
      rw [hc]
      exact tells_no
    · rename_i hbits
      refine ⟨fun hk => absurd hk (by decide), fun hs => absurd ?_ hzero⟩
      -- a known value without a set bit holds zero
      have hknown : v.known = 255#8 := by simpa only [isKnown, beq_iff_eq] using h.2 hs
      have hheld : v.held = 0#8 := by
        have hb : v.held &&& v.known = 0#8 := not_not.mp hbits
        rw [hknown] at hb
        rw [← hb]
        exact BitVec.and_allOnes.symm
      exact Tribyte.ext hknown hheld

theorem Shows.equal (ha : a.Shows sharp c) (hb : b.Shows sharp d) :
    (a.equal b).Tells sharp 0 (c == d) := by
  simp only [Tribyte.equal]
  split
  · rename_i hdiff
    have hne : (c == d) = false := by
      rw [beq_eq_false_iff_ne]
      intro hcd
      apply hdiff
      have hca : c &&& a.known = a.bits := ha.1
      have hdb : d &&& b.known = b.bits := hb.1
      rw [← hca, ← hdb, hcd]
      ext i hi
      simp only [BitVec.getElem_and, BitVec.getElem_xor, BitVec.getElem_zero]
      cases d[i] <;> cases a.known[i] <;> cases b.known[i] <;> rfl
    rw [hne]
    exact tells_no
  · rename_i hsame
    split
    · rename_i hknown
      rw [Bool.and_eq_true] at hknown
      have hka : a.known = 255#8 := by simpa only [isKnown, beq_iff_eq] using hknown.1
      have hkb : b.known = 255#8 := by simpa only [isKnown, beq_iff_eq] using hknown.2
      have hca : c = a.bits := by
        rw [← show c &&& a.known = a.bits from ha.1, hka]
        exact BitVec.and_allOnes.symm
      have hdb : d = b.bits := by
        rw [← show d &&& b.known = b.bits from hb.1, hkb]
        exact BitVec.and_allOnes.symm
      have heq : (c == d) = true := by
        rw [beq_iff_eq, hca, hdb, ← BitVec.xor_eq_zero_iff]
        have hz := not_not.mp hsame
        rw [hka, hkb] at hz
        rw [← hz]
        exact BitVec.and_allOnes.symm
      rw [heq]
      exact tells_yes
    · rename_i hknown
      refine ⟨fun hk => absurd hk (by decide), fun hs => absurd ?_ hknown⟩
      rw [ha.2 hs, hb.2 hs]
      rfl

end Tribyte

end StackDepth
