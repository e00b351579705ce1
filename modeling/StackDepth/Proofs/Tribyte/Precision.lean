import Mathlib
import StackDepth.Proofs.Transfer.Canonical

/-!
# Operations lose no more than they must

An operation on three-valued bytes is as good as it can be if its result is canonical and leaves a bit open
only where two results on covered bytes differ. For bitwise operations and shifts this is read off position
by position. A sum leaves a bit open for one of two reasons. Either an operand leaves it open, and then adding
one at this position flips the bit of the sum, or the two extreme sums differ there, and both are sums of
covered bytes.

Main statements:

* `Tribyte.settles_iff_forall`: a position is known if all covered bytes agree on it;
* `Tribyte.summarizes_agree`: when the agreement of two results is as good as possible;
* `Tribyte.summarizes_add`, `Tribyte.summarizes_addWord` and `Tribyte.summarizes_bitwise`;
* `Tribyte.operations_summarize`: all operations, the two questions and the join.
-/

namespace StackDepth

/-- Adding one at a position flips the bit there. -/
theorem getLsbD_add_twoPow {w n : Nat} (hn : n < w) (x : BitVec w) :
    (x + BitVec.twoPow w n).getLsbD n = !x.getLsbD n := by
  have hpow : 2 ^ n % 2 ^ w % 2 ^ n = 0 := by
    rw [Nat.mod_eq_of_lt (Nat.pow_lt_pow_right Nat.one_lt_two hn), Nat.mod_self]
  have hcarry : BitVec.carry n x (BitVec.twoPow w n) false = false := by
    simp only [BitVec.carry, BitVec.toNat_twoPow, hpow, Bool.toNat_false, Nat.add_zero,
      decide_eq_false_iff_not, Nat.not_le]
    exact Nat.mod_lt _ (Nat.two_pow_pos n)
  rw [BitVec.getLsbD_add hn, BitVec.getLsbD_twoPow, hcarry]
  simp [hn]

theorem add_twoPow_of_not {w n : Nat} {x : BitVec w} (hbit : x.getLsbD n = false) :
    x + BitVec.twoPow w n = x ||| BitVec.twoPow w n := by
  refine BitVec.add_eq_or_of_and_eq_zero _ _ (BitVec.eq_of_getLsbD_eq fun i _ => ?_)
  rw [BitVec.getLsbD_and, BitVec.getLsbD_twoPow, BitVec.getLsbD_zero]
  by_cases hin : n = i
  · rw [← hin, hbit, Bool.false_and]
  · simp [hin]

namespace Tribyte

variable {a b v r e : Tribyte} {n : Nat} {x z : Bool} {c : Byte} {mask p q : Byte} {results : Set Byte}

/-! ### What is known of a position -/

/-- Position `n` is known to be `x`. -/
def Settles (v : Tribyte) (n : Nat) (x : Bool) : Prop := v.bit n = ofBool x

/-- A single-bit value is told by its only position. -/
theorem Single.eq_ofBool_iff (h : v.Single) :
    v = ofBool x ↔ v.known.getLsbD 0 = true ∧ v.held.getLsbD 0 = x := by
  have hbool : ∀ x, (ofBool x).known.getLsbD 0 = true ∧ (ofBool x).held.getLsbD 0 = x := by decide
  constructor
  · rintro rfl
    exact hbool x
  · intro hv
    refine BelowAt.eq_ofBool (b := ofBool x) (fun _ => ?_) h rfl
    rw [(hbool x).2]
    exact hv

theorem settles_iff (hn : n < 8) :
    v.Settles n x ↔ v.known.getLsbD n = true ∧ v.held.getLsbD n = x := by
  rw [Settles, (single_bit v n).eq_ofBool_iff, known_bit hn, held_bit hn]

/-- A truth value that a position leaves possible is the one of some covered byte. -/
theorem tells_iff_exists (hn : n < 8) :
    v.Tells False n x ↔ ∃ c, v.Covers c ∧ c.getLsbD n = x := by
  constructor
  · intro h
    cases hk : v.known.getLsbD n with
    | true =>
      refine ⟨v.floor, v.covers_floor, ?_⟩
      rw [getLsbD_floor, hk, Bool.and_true, h.1 hk]
    | false =>
      cases x with
      | false => exact ⟨v.floor, v.covers_floor, by rw [getLsbD_floor, hk, Bool.and_false]⟩
      | true => exact ⟨v.ceil, v.covers_ceil, by rw [getLsbD_ceil hn, hk, Bool.not_false, Bool.or_true]⟩
  · rintro ⟨c, hc, rfl⟩
    exact ⟨covers_iff.mp hc n hn, False.elim⟩

/-- A position is known if and only if it can only be what it is known to be. -/
theorem settles_iff_tells (hn : n < 8) : v.Settles n z ↔ ∀ x, v.Tells False n x → x = z := by
  rw [settles_iff hn]
  simp only [Tells, false_implies, and_true]
  generalize v.known.getLsbD n = k, v.held.getLsbD n = h
  revert k h z
  decide

theorem settles_iff_forall (hn : n < 8) : v.Settles n z ↔ ∀ c, v.Covers c → c.getLsbD n = z := by
  rw [settles_iff_tells hn]
  constructor
  · exact fun h c hc => h _ ((tells_iff_exists hn).mpr ⟨c, hc, rfl⟩)
  · intro h x hx
    obtain ⟨c, hc, rfl⟩ := (tells_iff_exists hn).mp hx
    exact h c hc

/-! ### The best value for a set of bytes -/

/-- The value is canonical, and it knows a bit exactly if all results have the same bit there. -/
structure Summarizes (v : Tribyte) (results : Set Byte) : Prop where
  /-- The value is in canonical form. -/
  canonical : v.Canonical
  /-- A bit is known exactly if all results agree on it. -/
  settles_iff : ∀ n < 8, ∀ z, v.Settles n z ↔ ∀ r ∈ results, r.getLsbD n = z

/-- What two results agree on is the best value if it covers all results, and if two results differ
wherever the mask leaves a position out. -/
theorem summarizes_agree (hp : p ∈ results) (hq : q ∈ results)
    (hcovers : ∀ r ∈ results, (agree p q mask).Covers r)
    (hopen : ∀ n < 8, mask.getLsbD n = false →
      ∃ r ∈ results, ∃ r' ∈ results, r.getLsbD n ≠ r'.getLsbD n) :
    (agree p q mask).Summarizes results := by
  refine ⟨canonical_agree p q mask, fun n hn z => ⟨fun h r hr => ?_, fun h => ?_⟩⟩
  · exact (settles_iff_forall hn).mp h r (hcovers r hr)
  · have hmask : mask.getLsbD n = true := by
      by_contra hout
      obtain ⟨r, hr, r', hr', hne⟩ := hopen n hn (Bool.eq_false_of_not_eq_true hout)
      exact hne ((h r hr).trans (h r' hr').symm)
    have hknown : (agree p q mask).known.getLsbD n = true := by
      rw [known_agree _ _ _ hn, hmask, h p hp, h q hq, beq_self_eq_true, Bool.and_self]
    exact (Tribyte.settles_iff hn).mpr ⟨hknown, (held_agree _ _ _ hknown).trans (h p hp)⟩

/-! ### Arithmetic -/

/-- Where the value leaves a bit open, it covers the byte with this bit added. -/
theorem covers_floor_add (hopen : v.known.getLsbD n = false) :
    v.Covers (v.floor + BitVec.twoPow 8 n) := by
  have hbit : v.floor.getLsbD n = false := by rw [getLsbD_floor, hopen, Bool.and_false]
  rw [add_twoPow_of_not hbit, covers_iff]
  intro i hi hk
  have hne : n ≠ i := by
    rintro rfl
    exact Bool.false_ne_true (hopen.symm.trans hk)
  rw [BitVec.getLsbD_or, getLsbD_floor, BitVec.getLsbD_twoPow, hk]
  simp [hne]

theorem tells_floor (v : Tribyte) (hn : n < 8) : v.Tells False n (v.floor.getLsbD n) :=
  (tells_iff_exists hn).mpr ⟨_, v.covers_floor, rfl⟩

theorem tells_ceil (v : Tribyte) (hn : n < 8) : v.Tells False n (v.ceil.getLsbD n) :=
  (tells_iff_exists hn).mpr ⟨_, v.covers_ceil, rfl⟩

theorem Covers.shows (h : v.Covers c) : v.Shows False c := ⟨h, False.elim⟩

theorem summarizes_add (a b e : Tribyte) :
    (a.add b e).Summarizes
      {r | ∃ c d x, a.Covers c ∧ b.Covers d ∧ e.Tells False 0 x ∧ r = c + d + unit x} := by
  have hfloor := tells_floor e (show 0 < 8 by decide)
  have hcovers : ∀ c d x, a.Covers c → b.Covers d → e.Tells False 0 x →
      (a.add b e).Covers (c + d + unit x) := fun c d x hc hd hx => (hc.shows.add hd.shows hx).1
  rw [add_eq_agree] at hcovers ⊢
  refine summarizes_agree ⟨_, _, _, a.covers_ceil, b.covers_ceil, tells_ceil e (by decide), rfl⟩
    ⟨_, _, _, a.covers_floor, b.covers_floor, hfloor, rfl⟩ ?_ fun n hn hopen => ?_
  · rintro r ⟨c, d, x, hc, hd, hx, rfl⟩
    exact hcovers c d x hc hd hx
  · -- the sum of the lower ends and the sum with one more at the open position
    have hflip := getLsbD_add_twoPow hn (a.floor + b.floor + unit (e.floor.getLsbD 0))
    refine ⟨_, ⟨_, _, _, a.covers_floor, b.covers_floor, hfloor, rfl⟩,
      a.floor + b.floor + unit (e.floor.getLsbD 0) + BitVec.twoPow 8 n, ?_, ?_⟩
    · rw [BitVec.getLsbD_and, Bool.and_eq_false_iff] at hopen
      rcases hopen with ha | hb
      · refine ⟨_, _, _, covers_floor_add ha, b.covers_floor, hfloor, ?_⟩
        ac_rfl
      · refine ⟨_, _, _, a.covers_floor, covers_floor_add hb, hfloor, ?_⟩
        ac_rfl
    · rw [hflip]
      exact (Bool.not_ne_self _).symm

theorem covers_not_iff : b.not.Covers (~~~c) ↔ b.Covers c := by
  rw [covers_iff, covers_iff]
  refine forall₂_congr fun n hn => ?_
  simp only [Tribyte.not, make, Tribyte.bits, BitVec.getLsbD_and, BitVec.getLsbD_not, hn, decide_true,
    Bool.true_and]
  generalize b.known.getLsbD n = k, b.held.getLsbD n = h, c.getLsbD n = x
  decide +revert

theorem tells_not_iff : e.not.Tells False 0 (!x) ↔ e.Tells False 0 x := by
  simp only [Tells, Tribyte.not, make, Tribyte.bits, BitVec.getLsbD_and, BitVec.getLsbD_not,
    show 0 < 8 by decide, decide_true, Bool.true_and, false_implies, and_true]
  generalize e.known.getLsbD 0 = k, e.held.getLsbD 0 = h
  revert k h x
  decide

theorem summarizes_sub (a b e : Tribyte) :
    (a.sub b e).Summarizes
      {r | ∃ c d x, a.Covers c ∧ b.Covers d ∧ e.Tells False 0 x ∧ r = c - d - unit x} := by
  rw [sub_eq_add_not]
  convert summarizes_add a b.not e.not using 1
  ext r
  constructor
  · rintro ⟨c, d, x, hc, hd, hx, rfl⟩
    exact ⟨c, ~~~d, !x, hc, covers_not_iff.mpr hd, tells_not_iff.mpr hx, sub_sub_unit c d x⟩
  · rintro ⟨c, d, x, hc, hd, hx, rfl⟩
    refine ⟨c, ~~~d, !x, hc, ?_, ?_, ?_⟩
    · rwa [← covers_not_iff, BitVec.not_not]
    · rwa [← tells_not_iff, Bool.not_not]
    · rw [sub_sub_unit, BitVec.not_not, Bool.not_not]

theorem covers_ofByte_iff {d : Byte} : (ofByte c).Covers d ↔ d = c := by
  simp only [Covers, ofByte, Tribyte.bits]
  rw [show (255#8 : Byte) = BitVec.allOnes 8 from rfl, BitVec.and_allOnes, BitVec.and_allOnes]

theorem tells_yes_iff : yes.Tells False 0 x ↔ x = true := by
  simp only [Tells, false_implies, and_true]
  decide +revert

theorem summarizes_inc (v : Tribyte) : v.inc.Summarizes {r | ∃ c, v.Covers c ∧ r = c + 1#8} := by
  rw [inc_eq_add]
  convert summarizes_add v zero yes using 1
  ext r
  simp [zero, covers_ofByte_iff, tells_yes_iff]

theorem summarizes_dec (v : Tribyte) : v.dec.Summarizes {r | ∃ c, v.Covers c ∧ r = c - 1#8} := by
  rw [dec_eq_sub]
  convert summarizes_sub v zero yes using 1
  ext r
  simp [zero, covers_ofByte_iff, tells_yes_iff]

/-! ### Sums of sixteen bits -/

/-- A floor with one more at an open position, as a word. -/
theorem append_floor_add (hi lo : Tribyte) :
    (∀ n < 8, lo.known.getLsbD n = false →
      hi.floor ++ (lo.floor + BitVec.twoPow 8 n) = (hi.floor ++ lo.floor) + BitVec.twoPow 16 n) ∧
    ∀ n < 8, hi.known.getLsbD n = false →
      (hi.floor + BitVec.twoPow 8 n) ++ lo.floor = (hi.floor ++ lo.floor) + BitVec.twoPow 16 (8 + n) := by
  have hword : ∀ i, (hi.floor ++ lo.floor).getLsbD i =
      if i < 8 then lo.floor.getLsbD i else hi.floor.getLsbD (i - 8) := getLsbD_pair _ _
  constructor
  · intro n hn hopen
    have hbit : lo.floor.getLsbD n = false := by rw [getLsbD_floor, hopen, Bool.and_false]
    rw [add_twoPow_of_not hbit, add_twoPow_of_not (by rw [hword, if_pos hn, hbit])]
    refine BitVec.eq_of_getLsbD_eq fun i _ => ?_
    rw [getLsbD_pair, BitVec.getLsbD_or, BitVec.getLsbD_or, hword, BitVec.getLsbD_twoPow,
      BitVec.getLsbD_twoPow]
    by_cases hi : i < 8
    · simp [hi, hn, show n < 16 by omega]
    · simp [hi, show n ≠ i by omega]
  · intro n hn hopen
    have hbit : hi.floor.getLsbD n = false := by rw [getLsbD_floor, hopen, Bool.and_false]
    rw [add_twoPow_of_not hbit, add_twoPow_of_not (by
      rw [hword, if_neg (by omega), Nat.add_sub_cancel_left, hbit])]
    refine BitVec.eq_of_getLsbD_eq fun i _ => ?_
    rw [getLsbD_pair, BitVec.getLsbD_or, BitVec.getLsbD_or, hword, BitVec.getLsbD_twoPow,
      BitVec.getLsbD_twoPow]
    by_cases hi : i < 8
    · simp [hi, show 8 + n ≠ i by omega]
    · simp [hi, hn, show 8 + n < 16 by omega, show n = i - 8 ↔ 8 + n = i by omega]

/-- The bytes from bit `start` on of the sums of covered words with `k`. -/
def sumBytes (lo hi : Tribyte) (k : BitVec 16) (start : Nat) : Set Byte :=
  {r | ∃ l h, lo.Covers l ∧ hi.Covers h ∧ r = ((h ++ l) + k).extractLsb' start 8}

/-- The byte from bit `start` on of the two extreme sums. -/
theorem summarizes_sumBytes {lo hi : Tribyte} {k : BitVec 16} {start : Nat} (hstart : start ≤ 8)
    (hcovers : ∀ l h, lo.Covers l → hi.Covers h →
      (agree (((hi.ceil ++ lo.ceil) + k).extractLsb' start 8)
        (((hi.floor ++ lo.floor) + k).extractLsb' start 8) mask).Covers
        (((h ++ l) + k).extractLsb' start 8))
    (hopen : ∀ n < 8, mask.getLsbD n = false → ∃ l h, lo.Covers l ∧ hi.Covers h ∧
      h ++ l = (hi.floor ++ lo.floor) + BitVec.twoPow 16 (start + n)) :
    (agree (((hi.ceil ++ lo.ceil) + k).extractLsb' start 8)
      (((hi.floor ++ lo.floor) + k).extractLsb' start 8) mask).Summarizes (sumBytes lo hi k start) := by
  have hfloor : ((hi.floor ++ lo.floor) + k).extractLsb' start 8 ∈ sumBytes lo hi k start :=
    ⟨_, _, lo.covers_floor, hi.covers_floor, rfl⟩
  refine summarizes_agree ⟨_, _, lo.covers_ceil, hi.covers_ceil, rfl⟩ hfloor ?_ fun n hn hmask => ?_
  · rintro r ⟨l, h, hl, hh, rfl⟩
    exact hcovers l h hl hh
  · obtain ⟨l, h, hl, hh, hword⟩ := hopen n hn hmask
    refine ⟨_, hfloor, _, ⟨l, h, hl, hh, rfl⟩, ?_⟩
    have hflip := getLsbD_add_twoPow (show start + n < 16 by omega) ((hi.floor ++ lo.floor) + k)
    rw [hword, add_right_comm, BitVec.getLsbD_extractLsb', BitVec.getLsbD_extractLsb', hflip]
    simp [hn]

theorem summarizes_addWord (lo hi : Tribyte) (k : Int) :
    (addWord lo hi k).1.Summarizes (sumBytes lo hi (BitVec.ofInt 16 k) 0) ∧
      (addWord lo hi k).2.Summarizes (sumBytes lo hi (BitVec.ofInt 16 k) 8) := by
  obtain ⟨hlow, hhigh⟩ := append_floor_add hi lo
  constructor
  · refine summarizes_sumBytes (by decide) (fun l h hl hh => (hl.shows.addWord hh.shows k).1.1)
      fun n hn hopen => ⟨_, _, covers_floor_add hopen, hi.covers_floor, ?_⟩
    rw [Nat.zero_add]
    exact hlow n hn hopen
  · exact summarizes_sumBytes (by decide) (fun l h hl hh => (hl.shows.addWord hh.shows k).2.1)
      fun n hn hopen => ⟨_, _, lo.covers_floor, covers_floor_add hopen, hhigh n hn hopen⟩

/-! ### Logic and shifts -/

/-- Two operands decide a bit of a result by their bits at the same position. -/
theorem summarizes_bitwise {op : Byte → Byte → Byte} {f : Bool → Bool → Bool} (hv : v.Canonical)
    (hop : ∀ n < 8, ∀ c d, (op c d).getLsbD n = f (c.getLsbD n) (d.getLsbD n))
    (hsettles : ∀ n < 8, ∀ z,
      v.Settles n z ↔ ∀ x y, a.Tells False n x → b.Tells False n y → f x y = z) :
    v.Summarizes {r | ∃ c d, a.Covers c ∧ b.Covers d ∧ r = op c d} := by
  refine ⟨hv, fun n hn z => (hsettles n hn z).trans ⟨?_, fun h x y hx hy => ?_⟩⟩
  · rintro h r ⟨c, d, hc, hd, rfl⟩
    rw [hop n hn]
    exact h _ _ ((tells_iff_exists hn).mpr ⟨c, hc, rfl⟩) ((tells_iff_exists hn).mpr ⟨d, hd, rfl⟩)
  · obtain ⟨c, hc, rfl⟩ := (tells_iff_exists hn).mp hx
    obtain ⟨d, hd, rfl⟩ := (tells_iff_exists hn).mp hy
    rw [← hop n hn]
    exact h _ ⟨c, d, hc, hd, rfl⟩

theorem summarizes_and (a b : Tribyte) :
    (a.and b).Summarizes {r | ∃ c d, a.Covers c ∧ b.Covers d ∧ r = c &&& d} := by
  refine summarizes_bitwise (canonical_make _ _) (fun n _ c d => BitVec.getLsbD_and) fun n hn z => ?_
  rw [settles_iff hn]
  simp only [Tells, Tribyte.and, make, Tribyte.bits, zeros, BitVec.getLsbD_and, BitVec.getLsbD_or,
    BitVec.getLsbD_not, hn, decide_true, Bool.true_and, false_implies, and_true]
  generalize a.known.getLsbD n = k, a.held.getLsbD n = h, b.known.getLsbD n = k', b.held.getLsbD n = h'
  revert k h k' h' z
  decide

theorem summarizes_or (a b : Tribyte) :
    (a.or b).Summarizes {r | ∃ c d, a.Covers c ∧ b.Covers d ∧ r = c ||| d} := by
  refine summarizes_bitwise (canonical_make _ _) (fun n _ c d => BitVec.getLsbD_or) fun n hn z => ?_
  rw [settles_iff hn]
  simp only [Tells, Tribyte.or, make, Tribyte.bits, zeros, BitVec.getLsbD_and, BitVec.getLsbD_or,
    BitVec.getLsbD_not, hn, decide_true, Bool.true_and, false_implies, and_true]
  generalize a.known.getLsbD n = k, a.held.getLsbD n = h, b.known.getLsbD n = k', b.held.getLsbD n = h'
  revert k h k' h' z
  decide

theorem summarizes_xor (a b : Tribyte) :
    (a.xor b).Summarizes {r | ∃ c d, a.Covers c ∧ b.Covers d ∧ r = c ^^^ d} := by
  refine summarizes_bitwise (canonical_make _ _) (fun n _ c d => BitVec.getLsbD_xor) fun n hn z => ?_
  rw [settles_iff hn]
  simp only [Tells, Tribyte.xor, make, Tribyte.bits, BitVec.getLsbD_and, BitVec.getLsbD_xor,
    false_implies, and_true]
  generalize a.known.getLsbD n = k, a.held.getLsbD n = h, b.known.getLsbD n = k', b.held.getLsbD n = h'
  revert k h k' h' z
  decide

/-- One operand decides a bit of a result by its bit at another position. -/
theorem summarizes_moved {op : Byte → Byte} (σ : Nat → Nat) (f : Bool → Bool) (hr : r.Canonical)
    (hσ : ∀ n < 8, σ n < 8) (hop : ∀ n < 8, ∀ c, (op c).getLsbD n = f (c.getLsbD (σ n)))
    (hsettles : ∀ n < 8, ∀ z, r.Settles n z ↔ ∀ x, v.Tells False (σ n) x → f x = z) :
    r.Summarizes {z | ∃ c, v.Covers c ∧ z = op c} := by
  refine ⟨hr, fun n hn z => (hsettles n hn z).trans ⟨?_, fun h x hx => ?_⟩⟩
  · rintro h z ⟨c, hc, rfl⟩
    rw [hop n hn]
    exact h _ ((tells_iff_exists (hσ n hn)).mpr ⟨c, hc, rfl⟩)
  · obtain ⟨c, hc, rfl⟩ := (tells_iff_exists (hσ n hn)).mp hx
    rw [← hop n hn]
    exact h _ ⟨c, hc, rfl⟩

theorem summarizes_not (v : Tribyte) : v.not.Summarizes {r | ∃ c, v.Covers c ∧ r = ~~~c} := by
  refine summarizes_moved id Bool.not (canonical_make _ _) (fun n hn => hn)
    (fun n hn c => by simp [hn]) fun n hn z => ?_
  rw [settles_iff hn]
  simp only [Tells, Tribyte.not, make, Tribyte.bits, BitVec.getLsbD_and, BitVec.getLsbD_not, hn,
    decide_true, Bool.true_and, false_implies, and_true, id]
  generalize v.known.getLsbD n = k, v.held.getLsbD n = h
  revert k h z
  decide

/-- The position that the exchange of the halves moves to `n`. -/
def swapped (n : Nat) : Nat := if n < 4 then 4 + n else n - 4

theorem swapped_lt (hn : n < 8) : swapped n < 8 := by
  unfold swapped
  split <;> omega

theorem getLsbD_swap (c : Byte) (hn : n < 8) :
    ((c <<< 4) ||| (c >>> 4)).getLsbD n = c.getLsbD (swapped n) := by
  rw [BitVec.getLsbD_or, BitVec.getLsbD_shiftLeft, BitVec.getLsbD_ushiftRight, swapped]
  by_cases hlow : n < 4
  · simp [hlow]
  · rw [BitVec.getLsbD_of_ge c (4 + n) (by omega)]
    simp [hlow, hn]

theorem summarizes_swap (v : Tribyte) :
    v.swap.Summarizes {r | ∃ c, v.Covers c ∧ r = (c <<< 4) ||| (c >>> 4)} := by
  refine summarizes_moved swapped id (canonical_make _ _) (fun n hn => swapped_lt hn)
    (fun n hn c => getLsbD_swap c hn) fun n hn z => ?_
  simp only [id]
  rw [← settles_iff_tells (swapped_lt hn), settles_iff hn, settles_iff (swapped_lt hn), Tribyte.swap, make,
    BitVec.getLsbD_and, getLsbD_swap _ hn, getLsbD_swap _ hn, Tribyte.bits, BitVec.getLsbD_and]
  refine and_congr_right fun hknown => ?_
  rw [hknown, Bool.and_true, Bool.and_true]

/-- A shift moves every bit by one position and lets a truth value in at one end. -/
theorem summarizes_shift {op : Byte → Bool → Byte} (entry : Nat) (σ : Nat → Nat) (hr : r.Canonical)
    (hσ : ∀ n < 8, n ≠ entry → σ n < 8)
    (hop : ∀ n < 8, ∀ c x, (op c x).getLsbD n = if n = entry then x else c.getLsbD (σ n))
    (hsettles : ∀ n < 8, ∀ z,
      r.Settles n z ↔ if n = entry then e.Settles 0 z else v.Settles (σ n) z) :
    r.Summarizes {z | ∃ c x, v.Covers c ∧ e.Tells False 0 x ∧ z = op c x} := by
  refine ⟨hr, fun n hn z => (hsettles n hn z).trans ?_⟩
  by_cases hentry : n = entry
  · rw [if_pos hentry, settles_iff_tells (by decide)]
    constructor
    · rintro h z ⟨c, x, -, hx, rfl⟩
      rw [hop n hn, if_pos hentry]
      exact h x hx
    · intro h x hx
      have hbit := h _ ⟨_, x, v.covers_floor, hx, rfl⟩
      rwa [hop n hn, if_pos hentry] at hbit
  · rw [if_neg hentry, settles_iff_forall (hσ n hn hentry)]
    constructor
    · rintro h z ⟨c, x, hc, -, rfl⟩
      rw [hop n hn, if_neg hentry]
      exact h c hc
    · intro h c hc
      have hbit := h _ ⟨c, _, hc, tells_floor e (by decide), rfl⟩
      rwa [hop n hn, if_neg hentry] at hbit

theorem summarizes_shiftLeft (v : Tribyte) (he : e.Canonical) :
    (v.shiftLeft e).Summarizes
      {r | ∃ c x, v.Covers c ∧ e.Tells False 0 x ∧ r = (c <<< 1) ||| BitVec.ofNat 8 x.toNat} := by
  refine summarizes_shift 0 (· - 1) (he.shiftLeft v) (fun n hn _ => by omega)
    (fun n hn c x => getLsbD_shiftLeft_or c x hn) fun n hn z => ?_
  rw [settles_iff hn, Tribyte.shiftLeft, known_setBit (by decide) hn, held_setBit (by decide) hn]
  by_cases hzero : n = 0
  · rw [if_pos hzero, if_pos hzero, if_pos hzero, settles_iff (by decide)]
  · rw [if_neg hzero, if_neg hzero, if_neg hzero, settles_iff (by omega)]
    simp only [make, Tribyte.bits, BitVec.getLsbD_shiftLeft, BitVec.getLsbD_and]
    grind

theorem summarizes_shiftRight (v : Tribyte) (he : e.Canonical) :
    (v.shiftRight e).Summarizes
      {r | ∃ c x, v.Covers c ∧ e.Tells False 0 x ∧ r = (c >>> 1) ||| (if x then 0x80#8 else 0#8)} := by
  refine summarizes_shift 7 (1 + ·) (he.shiftRight v) (fun n hn _ => by omega)
    (fun n hn c x => getLsbD_shiftRight_or c x hn) fun n hn z => ?_
  rw [settles_iff hn, Tribyte.shiftRight, known_setBit (by decide) hn, held_setBit (by decide) hn]
  by_cases htop : n = 7
  · rw [if_pos htop, if_pos htop, if_pos htop, settles_iff (by decide)]
  · rw [if_neg htop, if_neg htop, if_neg htop, settles_iff (by omega)]
    simp only [make, Tribyte.bits, BitVec.getLsbD_ushiftRight, BitVec.getLsbD_and]
    grind

/-! ### Questions -/

theorem isKnown_of_subsingleton (h : ∀ c d, v.Covers c → v.Covers d → c = d) : v.isKnown = true := by
  have hends := h _ _ v.covers_ceil v.covers_floor
  rw [isKnown_iff]
  intro n hn
  have hbit := congrArg (fun w : Byte => w.getLsbD n) hends
  simp only [getLsbD_ceil hn, getLsbD_floor] at hbit
  cases hk : v.known.getLsbD n with
  | true => rfl
  | false => simp [hk] at hbit

theorem single_isZero (v : Tribyte) : v.isZero.Single := by
  unfold Tribyte.isZero
  split
  · decide
  · split <;> decide

theorem isZero_eq_yes_iff : v.isZero = yes ↔ ∀ c, v.Covers c → c = 0#8 := by
  constructor
  · intro h c hc
    have htells := hc.shows.isZero.1
    rw [h] at htells
    exact eq_of_beq (htells rfl).symm
  · intro h
    have hknown := isKnown_of_subsingleton fun c d hc hd => (h c hc).trans (h d hd).symm
    have hshown : v.Shows True v.floor := ⟨v.covers_floor, fun _ => hknown⟩
    have hzero := hshown.isZero
    rw [h _ v.covers_floor] at hzero
    exact (single_isZero v).eq_ofBool_iff.mpr ⟨hzero.2 trivial, hzero.1 (hzero.2 trivial)⟩

theorem isZero_eq_no_iff : v.isZero = no ↔ ∀ c, v.Covers c → c ≠ 0#8 := by
  constructor
  · intro h c hc
    have htells := hc.shows.isZero.1
    rw [h] at htells
    exact beq_eq_false_iff_ne.mp (htells rfl).symm
  · intro h
    have hbits : v.bits ≠ 0#8 := h _ v.covers_floor
    rw [Tribyte.isZero, if_neg, if_pos hbits]
    rintro rfl
    exact hbits rfl

theorem equal_eq_yes_iff : a.equal b = yes ↔ ∀ c d, a.Covers c → b.Covers d → c = d := by
  constructor
  · intro h c d hc hd
    have htells := (hc.shows.equal hd.shows).1
    rw [h] at htells
    exact eq_of_beq (htells rfl).symm
  · intro h
    have hfloor := h _ _ a.covers_floor b.covers_floor
    have hknown := isKnown_of_subsingleton fun c d hc hd =>
      (h c _ hc b.covers_floor).trans (h d _ hd b.covers_floor).symm
    have hknown' := isKnown_of_subsingleton fun c d hc hd =>
      (h _ c a.covers_floor hc).symm.trans (h _ d a.covers_floor hd)
    have hshown : a.Shows True a.floor := ⟨a.covers_floor, fun _ => hknown⟩
    have hshown' : b.Shows True b.floor := ⟨b.covers_floor, fun _ => hknown'⟩
    have hequal := hshown.equal hshown'
    rw [hfloor, beq_self_eq_true] at hequal
    exact (single_equal a b).eq_ofBool_iff.mpr ⟨hequal.2 trivial, hequal.1 (hequal.2 trivial)⟩

theorem equal_eq_no_iff : a.equal b = no ↔ ∀ c d, a.Covers c → b.Covers d → c ≠ d := by
  constructor
  · intro h c d hc hd
    have htells := (hc.shows.equal hd.shows).1
    rw [h] at htells
    exact beq_eq_false_iff_ne.mp (htells rfl).symm
  · intro h
    by_contra hne
    have hsame : (a.bits ^^^ b.bits) &&& (a.known &&& b.known) = 0#8 := by
      by_contra hdiff
      exact hne (if_pos hdiff)
    -- where no bit known on both sides differs, the bits of both make a byte that both cover
    have hbit : ∀ n < 8, (a.known.getLsbD n = true → a.held.getLsbD n = (a.bits ||| b.bits).getLsbD n) ∧
        (b.known.getLsbD n = true → b.held.getLsbD n = (a.bits ||| b.bits).getLsbD n) := by
      intro n _
      have hn := congrArg (fun w : Byte => w.getLsbD n) hsame
      simp only [Tribyte.bits, BitVec.getLsbD_and, BitVec.getLsbD_xor, BitVec.getLsbD_or,
        BitVec.getLsbD_zero] at hn ⊢
      grind
    exact h _ _ (covers_iff.mpr fun n hn => (hbit n hn).1) (covers_iff.mpr fun n hn => (hbit n hn).2) rfl

/-- The complement of a single-bit value is settled where the value is. -/
theorem Single.not_eq_ofBool_iff (h : v.Single) : v.not = ofBool x ↔ v = ofBool (!x) := by
  rw [h.not.eq_ofBool_iff, h.eq_ofBool_iff]
  simp only [Tribyte.not, make, Tribyte.bits, BitVec.getLsbD_and, BitVec.getLsbD_not,
    show 0 < 8 by decide, decide_true, Bool.true_and]
  generalize v.known.getLsbD 0 = k, v.held.getLsbD 0 = h
  revert k h x
  decide

/-! ### The join -/

theorem merge_below_iff : (a.merge b).Below v ↔ a.Below v ∧ b.Below v := by
  simp only [below_iff, BelowAt, merge, make, Tribyte.bits, BitVec.getLsbD_and, BitVec.getLsbD_not,
    BitVec.getLsbD_xor]
  grind

/-! ### All operations -/

theorem covers_unit_iff {c : Tribyte} (hc : c ∈ [yes, no, unknown]) :
    c.Covers (unit x) ↔ c.Tells False 0 x := by
  have hall : ∀ c ∈ [yes, no, unknown], ∀ x, c.Covers (unit x) ↔
      (c.known.getLsbD 0 = true → c.held.getLsbD 0 = x) := by decide
  rw [hall c hc x, Tells]
  simp

theorem canonical_single {c : Tribyte} (hc : c ∈ [yes, no, unknown]) : c.Canonical := by
  have hall : ∀ c ∈ [yes, no, unknown], c.Canonical := by decide
  exact hall c hc

theorem ofInt_add_add (c d : Byte) (x : Bool) :
    BitVec.ofInt 8 (c.toNat + d.toNat + x.toNat) = c + d + unit x := by
  have hx : BitVec.ofInt 8 x.toNat = unit x := by cases x <;> rfl
  rw [BitVec.ofInt_add, BitVec.ofInt_add, hx, BitVec.ofInt_natCast, BitVec.ofInt_natCast,
    BitVec.ofNat_toNat, BitVec.ofNat_toNat, BitVec.setWidth_eq, BitVec.setWidth_eq]

theorem ofInt_sub_sub (c d : Byte) (x : Bool) :
    BitVec.ofInt 8 (c.toNat - d.toNat - x.toNat) = c - d - unit x := by
  have hx : BitVec.ofInt 8 x.toNat = unit x := by cases x <;> rfl
  rw [sub_eq_add_neg, sub_eq_add_neg, BitVec.ofInt_add, BitVec.ofInt_add, BitVec.ofInt_neg, BitVec.ofInt_neg,
    hx, BitVec.ofInt_natCast, BitVec.ofInt_natCast, BitVec.ofNat_toNat, BitVec.ofNat_toNat,
    BitVec.setWidth_eq, BitVec.setWidth_eq, ← sub_eq_add_neg, ← sub_eq_add_neg]

/-- The word of two bytes. -/
theorem ofInt_word_add (h l : Byte) (k : Int) :
    BitVec.ofInt 16 (256 * h.toNat + l.toNat + k) = (h ++ l) + BitVec.ofInt 16 k := by
  have hword : BitVec.ofInt 16 (256 * h.toNat + l.toNat) = h ++ l := by
    have hl := l.isLt
    have hh := h.isLt
    rw [show (256 * h.toNat + l.toNat : Int) = ((256 * h.toNat + l.toNat : Nat) : Int) by push_cast; rfl,
      BitVec.ofInt_natCast]
    apply BitVec.eq_of_toNat_eq
    rw [BitVec.toNat_append, ← Nat.shiftLeft_add_eq_or_of_lt hl, Nat.shiftLeft_eq, BitVec.toNat_ofNat]
    omega
  rw [BitVec.ofInt_add, hword]

/-- Every operation gives a canonical value, and a bit of it is known exactly if it is the same in the exact
results of the operation on all covered bytes and carries. The two questions are answered exactly if the
answer is the same for all covered bytes, and the join is the least value above both of its parts. -/
theorem operations_summarize (a b v lo hi : Tribyte) {c : Tribyte} (hc : c ∈ [yes, no, unknown])
    (k : Int) :
    (a.add b c).Summarizes {r | ∃ x y e, a.Covers x ∧ b.Covers y ∧ c.Covers (unit e) ∧
      r = BitVec.ofInt 8 (x.toNat + y.toNat + e.toNat)} ∧
    (a.sub b c).Summarizes {r | ∃ x y e, a.Covers x ∧ b.Covers y ∧ c.Covers (unit e) ∧
      r = BitVec.ofInt 8 (x.toNat - y.toNat - e.toNat)} ∧
    v.inc.Summarizes {r | ∃ x, v.Covers x ∧ r = x + 1#8} ∧
    v.dec.Summarizes {r | ∃ x, v.Covers x ∧ r = x - 1#8} ∧
    (a.and b).Summarizes {r | ∃ x y, a.Covers x ∧ b.Covers y ∧ r = x &&& y} ∧
    (a.or b).Summarizes {r | ∃ x y, a.Covers x ∧ b.Covers y ∧ r = x ||| y} ∧
    (a.xor b).Summarizes {r | ∃ x y, a.Covers x ∧ b.Covers y ∧ r = x ^^^ y} ∧
    v.not.Summarizes {r | ∃ x, v.Covers x ∧ r = ~~~x} ∧
    v.swap.Summarizes {r | ∃ x, v.Covers x ∧ r = (x <<< 4) ||| (x >>> 4)} ∧
    (v.shiftLeft c).Summarizes {r | ∃ x e, v.Covers x ∧ c.Covers (unit e) ∧
      r = (x <<< 1) ||| BitVec.ofNat 8 e.toNat} ∧
    (v.shiftRight c).Summarizes {r | ∃ x e, v.Covers x ∧ c.Covers (unit e) ∧
      r = (x >>> 1) ||| (if e then 0x80#8 else 0#8)} ∧
    (addWord lo hi k).1.Summarizes {r | ∃ l h, lo.Covers l ∧ hi.Covers h ∧
      r = (BitVec.ofInt 16 (256 * h.toNat + l.toNat + k)).extractLsb' 0 8} ∧
    (addWord lo hi k).2.Summarizes {r | ∃ l h, lo.Covers l ∧ hi.Covers h ∧
      r = (BitVec.ofInt 16 (256 * h.toNat + l.toNat + k)).extractLsb' 8 8} ∧
    (v.isZero = yes ↔ ∀ x, v.Covers x → x = 0#8) ∧
    (v.isZero = no ↔ ∀ x, v.Covers x → x ≠ 0#8) ∧
    (a.equal b = yes ↔ ∀ x y, a.Covers x → b.Covers y → x = y) ∧
    (a.equal b = no ↔ ∀ x y, a.Covers x → b.Covers y → x ≠ y) ∧
    (a.merge b).Canonical ∧ ((a.merge b).Below v ↔ a.Below v ∧ b.Below v) := by
  have hcanonical := canonical_single hc
  obtain ⟨hlow, hhigh⟩ := summarizes_addWord lo hi k
  simp only [covers_unit_iff hc, ofInt_add_add, ofInt_sub_sub, ofInt_word_add]
  exact ⟨summarizes_add a b c, summarizes_sub a b c, summarizes_inc v, summarizes_dec v,
    summarizes_and a b, summarizes_or a b, summarizes_xor a b, summarizes_not v, summarizes_swap v,
    summarizes_shiftLeft v hcanonical, summarizes_shiftRight v hcanonical, hlow, hhigh,
    isZero_eq_yes_iff, isZero_eq_no_iff, equal_eq_yes_iff, equal_eq_no_iff, canonical_make _ _,
    merge_below_iff⟩

/-- Eight more than `0011....`, with an unknown carry: only the top bit of the sum is certain. -/
theorem operations_summarize_of_half_known :
    unknown ∈ [yes, no, unknown] ∧
      ((⟨0xF0#8, 0x30#8⟩ : Tribyte).add (ofByte 8#8) unknown).Summarizes
        {r | ∃ x y e, (⟨0xF0#8, 0x30#8⟩ : Tribyte).Covers x ∧ (ofByte 8#8).Covers y ∧
          unknown.Covers (unit e) ∧ r = BitVec.ofInt 8 (x.toNat + y.toNat + e.toNat)} ∧
      (⟨0xF0#8, 0x30#8⟩ : Tribyte).add (ofByte 8#8) unknown = ⟨0x80#8, 0#8⟩ :=
  ⟨by simp, (operations_summarize ⟨0xF0#8, 0x30#8⟩ (ofByte 8#8) zero zero zero (by simp) 0).1, by decide⟩

end Tribyte

end StackDepth
