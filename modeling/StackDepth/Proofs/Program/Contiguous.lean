import Mathlib
import StackDepth.Program.Basic
import StackDepth.Proofs.Program.Placement

/-!
# Instructions one behind the other

A program can be made of a list of instructions, each of which is put where the one before it ends. The
address wraps around at the end of the flash, and an instruction that cannot be placed is left out without a
word. Nothing is left out as long as the list fits into the flash, the last word of it included. The first
instruction that does not fit is refused in one of two ways: it would end behind the flash, or the flash is
full and the address has come back to the first instruction.

* `Flash.consecutive`: where the instructions of a list stand;
* `Flash.Tidy.put_finish`: one more instruction at the end of an image;
* `Flash.HoldsAll.concat`, `Flash.HoldsAll.refused`: the next instruction of a list;
* `Program.holdsAll_ofInstructions_iff`: which lists are there as a whole.
-/

namespace StackDepth

variable {is : List Instruction} {i : Instruction}

/-! ### Sizes -/

theorem sequenceSize_append (is js : List Instruction) :
    sequenceSize (is ++ js) = sequenceSize is + sequenceSize js := by
  induction is with
  | nil => exact (Nat.zero_add _).symm
  | cons i is ih =>
    have hcons : ∀ ks, sequenceSize (i :: ks) = i.size + sequenceSize ks := fun _ => rfl
    rw [List.cons_append, hcons, hcons, ih, Nat.add_assoc]

theorem sequenceSize_concat (is : List Instruction) (i : Instruction) :
    sequenceSize (is ++ [i]) = sequenceSize is + i.size := sequenceSize_append is [i]

namespace Flash

variable {f : Flash} {pc : Address}

/-! ### Where the instructions stand -/

/-- The instructions of a list, each behind all that come before it. -/
def consecutive (is : List Instruction) : List (Nat × Instruction) :=
  is.mapIdx fun k i => (sequenceSize (is.take k), i)

theorem consecutive_concat (is : List Instruction) (i : Instruction) :
    consecutive (is ++ [i]) = consecutive is ++ [(sequenceSize is, i)] := by
  rw [consecutive, List.mapIdx_concat, List.take_left, consecutive]
  refine congrArg (· ++ _) (List.ext_getElem (by simp) fun k hk hk' => ?_)
  rw [List.length_mapIdx] at hk
  rw [List.getElem_mapIdx, List.getElem_mapIdx, List.take_append_of_le_length hk.le]

theorem placeAll_concat (f : Flash) (pc : Address) (is : List Instruction) (i : Instruction) :
    f.placeAll pc (is ++ [i]) =
      ((f.placeAll pc is).put (pc + BitVec.ofNat 16 (sequenceSize is)) i).1 := by
  induction is generalizing f pc with
  | nil => rw [List.nil_append, placeAll, placeAll, placeAll, sequenceSize, List.foldr_nil, BitVec.add_zero]
  | cons j is ih =>
    have hcons : sequenceSize (j :: is) = j.size + sequenceSize is := rfl
    rw [List.cons_append, placeAll, ih, placeAll, hcons, BitVec.ofNat_add, BitVec.add_assoc]

theorem ofInstructions_concat (is : List Instruction) (i : Instruction) :
    ofInstructions (is ++ [i]) =
      ((ofInstructions is).put (BitVec.ofNat 16 (sequenceSize is)) i).1 := by
  rw [ofInstructions, placeAll_concat, BitVec.zero_add, ofInstructions]

/-! ### One more instruction -/

/-- An instruction behind the last slot is listed last. -/
theorem entries_stored_size (f : Flash) (i : Instruction) :
    (f.stored f.slots.size i).entries = f.entries ++ [(f.slots.size, i)] := by
  have hold : (List.range f.slots.size).filterMap
      (fun w => ((f.stored f.slots.size i).at? w).map fun j => (w, j)) = f.entries := by
    refine List.filterMap_congr fun w hw => ?_
    rw [at?_stored, if_neg (List.mem_range.mp hw).ne]
  have hnew : ((List.range (i.size / 2)).map (f.slots.size + ·)).filterMap
      (fun w => ((f.stored f.slots.size i).at? w).map fun j => (w, j)) = [(f.slots.size, i)] := by
    have hbehind : f.at? (f.slots.size + 1) = none := at?_eq_none (Nat.le_succ _)
    rcases i.size_cases with hsize | hsize
    · simp [hsize, at?_stored]
    · simp [hsize, at?_stored, List.range_succ, hbehind]
  have hsize : (f.stored f.slots.size i).slots.size = f.slots.size + i.size / 2 := by
    rw [size_stored, max_eq_right (Nat.le_add_right _ _)]
  rw [entries, hsize, List.range_add, List.filterMap_append, hold, hnew]

/-- There is room behind the last instruction up to the end of the flash. -/
theorem Tidy.put_finish (hf : f.Tidy) (hend : f.finish + i.size ≤ flashSize) :
    f.put (BitVec.ofNat 16 f.finish) i = (f.stored f.slots.size i, none) := by
  have hfinish := hf.finish_eq
  have hsize := i.size_cases
  have haddress : (BitVec.ofNat 16 f.finish).toNat = f.finish := by
    rw [flashSize] at hend
    rw [BitVec.toNat_ofNat]
    omega
  have hword : (BitVec.ofNat 16 f.finish).toNat / 2 = f.slots.size := by omega
  refine put_eq_none_iff.mpr ⟨by omega, by omega, ?_, by rw [hword]⟩
  rw [hword]
  refine isTaken_eq_false_iff.mpr ⟨at?_eq_none le_rfl, fun _ => at?_eq_none (Nat.le_succ _), fun hpos => ?_⟩
  refine Bool.eq_false_of_not_eq_true fun hreaches => ?_
  -- a long instruction in the last slot would have brought a slot for its second word
  obtain ⟨j, hj, hlong⟩ := reaches_iff.mp hreaches
  have hfits := hf.fits _ j hj
  have hsize' := j.size_cases
  omega

theorem count_put_le (f : Flash) (pc : Address) (i : Instruction) :
    (f.put pc i).1.count ≤ f.count + 1 := by
  by_cases h : (f.put pc i).2 = none
  · obtain ⟨g, hput⟩ : ∃ g, f.put pc i = (g, none) := ⟨_, Prod.ext rfl h⟩
    obtain ⟨-, -, hfree, rfl⟩ := put_eq_none_iff.mp hput
    rw [hput, count_stored (isTaken_eq_false_iff.mp hfree).1]
  · rw [(sameView_put h).count_eq]
    exact Nat.le_succ _

/-! ### Whole lists -/

/-- The image is made of all instructions of a list, one behind the other. -/
structure HoldsAll (f : Flash) (is : List Instruction) : Prop where
  /-- The instructions in the order of addresses, each at the total size of those before it. -/
  each : f.toList.map (fun e => (e.1.toNat, e.2)) = consecutive is
  /-- There are no others. -/
  count_eq : f.count = is.length
  /-- The image ends behind the last one. -/
  finish_eq : f.finish = sequenceSize is

theorem holdsAll_nil : (ofInstructions []).HoldsAll [] := ⟨rfl, rfl, rfl⟩

/-- An instruction that fits behind a list is there with the others. -/
theorem HoldsAll.concat (h : f.HoldsAll is) (hf : f.Tidy) (hend : sequenceSize is + i.size ≤ flashSize) :
    (f.put (BitVec.ofNat 16 (sequenceSize is)) i).1.HoldsAll (is ++ [i]) ∧
      (f.put (BitVec.ofNat 16 (sequenceSize is)) i).1.Tidy := by
  rw [← h.finish_eq] at hend ⊢
  have hput := hf.put_finish hend
  have htidy : (f.stored f.slots.size i).Tidy := hf.place (place_eq_ok_iff_put.mpr hput)
  have hsize := i.size_cases
  have hfinish := hf.finish_eq
  have hlast : (address f.slots.size).toNat = f.finish := by
    rw [htidy.toNat_address (by rw [at?_stored, if_pos rfl]), hfinish]
  rw [hput]
  refine ⟨⟨?_, ?_, ?_⟩, htidy⟩
  · rw [toList_eq, entries_stored_size, List.map_append, ← toList_eq, List.map_append, h.each,
      consecutive_concat, ← h.finish_eq, ← hlast]
    rfl
  · rw [count_stored (at?_eq_none le_rfl), h.count_eq, List.length_append, List.length_singleton]
  · rw [sequenceSize_concat, ← h.finish_eq]
    have hstored : (f.stored f.slots.size i).finish = max f.finish (2 * f.slots.size + i.size) := rfl
    dsimp only
    omega

/-- The first word of an image that holds a list is taken. -/
theorem HoldsAll.exists_first (h : f.HoldsAll is) (hf : f.Tidy) (hne : is ≠ []) : ∃ j, f.at? 0 = some j := by
  obtain ⟨j, js, rfl⟩ := List.exists_cons_of_ne_nil hne
  have hfirst : (0, j) ∈ consecutive (j :: js) := by
    rw [consecutive, List.mapIdx_cons]
    exact List.mem_cons_self
  rw [← h.each] at hfirst
  obtain ⟨⟨pc, k⟩, hmem, heq⟩ := List.mem_map.mp hfirst
  obtain ⟨w, hat, rfl⟩ := mem_toList.mp hmem
  have hzero := (Prod.mk.inj heq).1
  rw [hf.toNat_address hat] at hzero
  obtain rfl : w = 0 := by omega
  exact ⟨k, hat⟩

/-- An instruction that does not fit behind a list is refused, also where its address has wrapped around. -/
theorem HoldsAll.refused (h : f.HoldsAll is) (hf : f.Tidy) (hend : flashSize < sequenceSize is + i.size) :
    (f.put (BitVec.ofNat 16 (sequenceSize is)) i).2 ≠ none := by
  intro hput
  obtain ⟨-, hfits, hfree, -⟩ := put_eq_none_iff.mp (Prod.ext rfl hput)
  have hle := hf.finish_le
  rw [h.finish_eq] at hle
  rcases hle.lt_or_eq with hlt | hfull
  · -- the instruction begins inside the flash and ends behind it
    rw [BitVec.toNat_ofNat, Nat.mod_eq_of_lt (show sequenceSize is < 2 ^ 16 from hlt)] at hfits
    omega
  · -- the flash is full, so the address is that of the first instruction
    have hne : is ≠ [] := by
      rintro rfl
      exact absurd hfull (by decide)
    obtain ⟨j, hj⟩ := h.exists_first hf hne
    have hnone := (isTaken_eq_false_iff.mp hfree).1
    rw [hfull, show (BitVec.ofNat 16 flashSize).toNat / 2 = 0 from rfl, hj] at hnone
    cases hnone

theorem holdsAll_ofInstructions (h : sequenceSize is ≤ flashSize) :
    (ofInstructions is).HoldsAll is ∧ (ofInstructions is).Tidy := by
  induction is using List.reverseRecOn with
  | nil => exact ⟨holdsAll_nil, tidy_empty⟩
  | append_singleton is i ih =>
    rw [sequenceSize_concat] at h
    obtain ⟨hall, htidy⟩ := ih (by omega)
    rw [ofInstructions_concat]
    exact hall.concat htidy h

/-- A list that is too long loses an instruction. -/
theorem count_ofInstructions_lt (h : flashSize < sequenceSize is) :
    (ofInstructions is).count < is.length := by
  induction is using List.reverseRecOn with
  | nil => exact absurd h (by decide)
  | append_singleton is i ih =>
    rw [ofInstructions_concat, List.length_append, List.length_singleton]
    rw [sequenceSize_concat] at h
    by_cases hprefix : sequenceSize is ≤ flashSize
    · obtain ⟨hall, htidy⟩ := holdsAll_ofInstructions hprefix
      rw [(sameView_put (hall.refused htidy h)).count_eq, hall.count_eq]
      exact Nat.lt_succ_self _
    · have hput := (ofInstructions is).count_put_le (BitVec.ofNat 16 (sequenceSize is)) i
      have hlost := ih (by omega)
      omega

end Flash

/-- A program holds all instructions that it is made of if and only if their total size is at most that of
the flash. Otherwise it has fewer instructions than the list. -/
theorem Program.holdsAll_ofInstructions_iff (is : List Instruction) :
    ((Program.ofInstructions is).flash.HoldsAll is ↔ sequenceSize is ≤ flashSize) ∧
      ((Program.ofInstructions is).flash.count < is.length ↔ flashSize < sequenceSize is) := by
  have hholds : sequenceSize is ≤ flashSize → (Program.ofInstructions is).flash.HoldsAll is :=
    fun h => (Flash.holdsAll_ofInstructions h).1
  refine ⟨⟨fun hall => ?_, hholds⟩, ⟨fun hlost => ?_, Flash.count_ofInstructions_lt⟩⟩
  · by_contra hlong
    exact (Flash.count_ofInstructions_lt (Nat.lt_of_not_le hlong)).ne hall.count_eq
  · by_contra hshort
    exact hlost.ne (hholds (Nat.le_of_not_lt hshort)).count_eq

/-- A long instruction moves the next one by four bytes. -/
example : (Flash.ofInstructions [{ op := .JMP }, { op := .NOP }, { op := .LDS }]).toList =
    [(0#16, { op := .JMP }), (4#16, { op := .NOP }), (6#16, { op := .LDS })] := by
  decide

end StackDepth
