import Mathlib
import StackDepth.Proofs.Text.Numeral
import StackDepth.Proofs.Transfer.Canonical
import StackDepth.Proofs.Tribyte.Precision

/-!
# What the line of a state tells

A byte is written with one letter for each position, which tells whether the position is known and, if so, the
bit. What is held under an unknown position is not written. So the letters tell which bytes are covered, and
nothing else. A state is written in columns without blanks, which can be cut apart again, and its line tells
what the state means.

* `Tribyte.render_eq_iff`: the letters of a byte;
* `State.columns`: the columns of a state;
* `State.render_eq_iff`: the line of a state.
-/

namespace StackDepth

/-! ### Letters -/

namespace Tribyte

variable {a b v : Tribyte} {n : Nat}

theorem letter_bit (hn : n < 8) : letter (v.bit n) =
    if v.known.getLsbD n then (if v.held.getLsbD n then '1' else '0') else '.' := by
  have hyes : v.bit n = yes ↔ v.known.getLsbD n = true ∧ v.held.getLsbD n = true :=
    settles_iff (x := true) hn
  have hno : v.bit n = no ↔ v.known.getLsbD n = true ∧ v.held.getLsbD n = false :=
    settles_iff (x := false) hn
  simp only [letter, hyes, hno]
  cases v.known.getLsbD n <;> cases v.held.getLsbD n <;> rfl

/-- A letter tells what is known of its position. -/
theorem letter_bit_eq_iff (hn : n < 8) :
    letter (a.bit n) = letter (b.bit n) ↔ a.BelowAt b n ∧ b.BelowAt a n := by
  rw [letter_bit hn, letter_bit hn, BelowAt, BelowAt]
  cases a.known.getLsbD n <;> cases b.known.getLsbD n <;> cases a.held.getLsbD n <;>
    cases b.held.getLsbD n <;> simp

/-- The letters of two bytes are the same if and only if they cover the same bytes. -/
theorem render_eq_iff : a.render = b.render ↔ ∀ c, a.Covers c ↔ b.Covers c := by
  have hmem : ∀ n, n ∈ [7, 6, 5, 4, 3, 2, 1, 0] ↔ n < 8 := by
    intro n
    simp only [List.mem_cons, List.not_mem_nil, or_false]
    omega
  have hbelow : (∀ c, a.Covers c ↔ b.Covers c) ↔ a.Below b ∧ b.Below a :=
    ⟨fun h => ⟨fun c => (h c).mp, fun c => (h c).mpr⟩, fun h c => ⟨h.1 c, h.2 c⟩⟩
  rw [hbelow, below_iff, below_iff, ← forall₂_and]
  constructor
  · intro h n hn
    exact (letter_bit_eq_iff hn).mp (List.map_inj_left.mp (String.ofList_injective h) n ((hmem n).mpr hn))
  · intro h
    refine congrArg String.ofList (List.map_inj_left.mpr fun n hn => ?_)
    exact (letter_bit_eq_iff ((hmem n).mp hn)).mpr (h n ((hmem n).mp hn))

theorem isSolid_render (v : Tribyte) : Text.IsSolid v.render := by
  intro c hc
  rw [render, String.toList_ofList] at hc
  obtain ⟨n, -, rfl⟩ := List.mem_map.mp hc
  unfold letter
  split_ifs <;> decide

end Tribyte

/-! ### Columns -/

namespace State

variable {s t : State}

/-- The columns of the line of a state. -/
def columns (s : State) : List String :=
  ["PC=" ++ Text.hex4 s.pc.toNat, "SREG=" ++ s.sreg.render, "EIMSK=" ++ s.eimsk.render,
    "TIMSK=" ++ s.timsk.render] ++ s.regs.toList.map Tribyte.render

theorem isSolid_columns (s : State) : ∀ w ∈ s.columns, Text.IsSolid w := by
  simp only [columns, List.forall_mem_append, List.forall_mem_cons, List.forall_mem_map]
  have hpc := (Numeral.isWord_digits_hex 4 s.pc.toNat).isSolid
  exact ⟨⟨.append (by decide) hpc, .append (by decide) s.sreg.isSolid_render,
    .append (by decide) s.eimsk.isSolid_render, .append (by decide) s.timsk.isSolid_render,
    List.forall_mem_nil _⟩, fun v _ => v.isSolid_render⟩

theorem length_columns (s : State) : s.columns.length = 36 := by
  simp [columns]

theorem render_eq_joinWith (s : State) : s.render = Text.joinWith " " s.columns := by
  have hregs : s.regs.toList.map Tribyte.render ≠ [] := fun h => by
    simpa using congrArg List.length h
  unfold render columns
  generalize s.regs.toList.map Tribyte.render = regs at hregs
  refine String.toList_injective ?_
  rw [Text.joinWith_append _ (by simp) hregs]
  simp [Text.joinWith]

theorem map_render_eq_iff {v w : Vector Tribyte registerCount} :
    v.toList.map Tribyte.render = w.toList.map Tribyte.render ↔
      ∀ r : Fin registerCount, (v.get r).render = (w.get r).render := by
  rw [← Vector.toList_map, ← Vector.toList_map, Vector.toList_inj]
  constructor
  · intro h r
    have hr := congrArg (fun u => u.get r) h
    simpa only [Vector.get_eq_getElem, Vector.getElem_map] using hr
  · intro h
    refine Vector.ext fun r hr => ?_
    rw [Vector.getElem_map, Vector.getElem_map]
    exact h ⟨r, hr⟩

/-- The columns of two states are the same if and only if the states mean the same. -/
theorem columns_eq_iff : s.columns = t.columns ↔ s.SameMeaning t := by
  simp only [columns, List.cons_append, List.nil_append, List.cons.injEq, String.append_right_inj,
    map_render_eq_iff, Tribyte.render_eq_iff]
  constructor
  · rintro ⟨hpc, hsreg, heimsk, htimsk, hregs⟩
    exact ⟨BitVec.eq_of_toNat_eq (Numeral.hex_injective 4 hpc), hsreg, heimsk, htimsk, hregs⟩
  · intro h
    exact ⟨by rw [h.pc], h.sreg, h.eimsk, h.timsk, h.regs⟩

/-- The columns of a state are found between the blanks of its line. -/
theorem splitOn_render (s : State) : Text.splitOn ' ' s.render.toList = s.columns.map String.toList := by
  rw [render_eq_joinWith]
  exact Text.splitOn_joinWith (by simp [columns]) fun w hw => (s.isSolid_columns w hw).not_mem rfl

/-- The lines of two states are the same if and only if the states mean the same. -/
theorem render_eq_iff : s.render = t.render ↔ s.SameMeaning t := by
  rw [← columns_eq_iff]
  constructor
  · intro h
    have hcut : s.columns.map String.toList = t.columns.map String.toList := by
      rw [← splitOn_render, ← splitOn_render, h]
    exact (List.map_inj_right fun _ _ => String.toList_injective).mp hcut
  · intro h
    rw [render_eq_joinWith, render_eq_joinWith, h]

end State

end StackDepth
