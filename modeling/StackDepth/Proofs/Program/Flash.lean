import Mathlib
import StackDepth.Program.Flash

/-!
# Flash images

An image that is built by placing instructions is tidy: it ends with its last instruction, inside the
flash, and the second word of a long instruction is empty. A tidy image is determined by which instruction
starts at which word, so it does not matter in which order its instructions are placed.

* `Flash.put_eq`, `Flash.place_eq_ok_iff`: when an instruction can be placed, and what comes of it;
* `Flash.Tidy.place`: placing an instruction keeps an image tidy;
* `Flash.PartOf.place`, `Flash.PartOf.eq_of_at`: building a part of a tidy image until it is the whole;
* `Flash.count_stored`, `Flash.Tidy.pairwise_toList`, `Flash.Tidy.isGreatest_finish`: the number of the
  instructions, their order and their end.
-/

namespace StackDepth

theorem Instruction.size_cases (i : Instruction) : i.size = 2 ∨ i.size = 4 := by
  rw [size, Opcode.size]
  split
  · exact .inr rfl
  · exact .inr rfl
  · exact .inr rfl
  · exact .inl rfl

namespace Flash

variable {f g p : Flash} {pc : Address} {i j : Instruction} {v w : Nat}

/-! ### Placing one instruction -/

/-- The image with an instruction at word `w`, which is not checked. -/
def stored (f : Flash) (w : Nat) (i : Instruction) : Flash :=
  { slots := (grow f.slots (w + i.size / 2)).setIfInBounds w (some i)
    finish := max f.finish (2 * w + i.size) }

/-- The image with slots for at least `n` words. -/
def grown (f : Flash) (n : Nat) : Flash := { f with slots := grow f.slots n }

theorem at?_grown (f : Flash) (n w : Nat) : (f.grown n).at? w = f.at? w := by
  rw [at?, grown, at?, grow, Array.getElem?_append]
  split
  · rfl
  · next hge =>
    rw [Array.getElem?_eq_none (Nat.le_of_not_lt hge), Array.getElem?_replicate]
    split <;> rfl

/-- What a call does, in terms of the image before it. -/
theorem put_eq (f : Flash) (pc : Address) (i : Instruction) : f.put pc i =
    if pc.toNat % 2 = 1 then (f, some (.misaligned pc))
    else if flashSize < pc.toNat + i.size then (f, some (.pastEnd i pc))
    else if f.isTaken (pc.toNat / 2) i.size then
      (f.grown (pc.toNat / 2 + i.size / 2), some (.overlap pc))
    else (f.stored (pc.toNat / 2) i, none) := by
  rw [put]
  split
  · rfl
  · next heven =>
    have hpc : 2 * (pc.toNat / 2) = pc.toNat := by omega
    rw [stored, hpc]
    rfl

theorem put_eq_none_iff : f.put pc i = (g, none) ↔
    pc.toNat % 2 = 0 ∧ pc.toNat + i.size ≤ flashSize ∧ f.isTaken (pc.toNat / 2) i.size = false ∧
      g = f.stored (pc.toNat / 2) i := by
  rw [put_eq]
  split
  · next hodd => exact iff_of_false (by simp) fun h => absurd h.1 (by omega)
  · next heven =>
    split
    · next hend => exact iff_of_false (by simp) fun h => absurd h.2.1 (by omega)
    · next hfits =>
      split
      · next htaken =>
        exact iff_of_false (by simp) fun h => Bool.false_ne_true (h.2.2.1.symm.trans htaken)
      · next hfree =>
        constructor
        · intro h
          exact ⟨by omega, by omega, Bool.eq_false_of_not_eq_true hfree, (congrArg Prod.fst h).symm⟩
        · rintro ⟨-, -, -, rfl⟩
          rfl

theorem place_eq_ok_iff_put : f.place pc i = .ok g ↔ f.put pc i = (g, none) := by
  rw [place]
  split
  · next g' hput => rw [hput, Except.ok.injEq, Prod.mk.injEq, and_iff_left rfl]
  · next g' e hput =>
    rw [hput]
    exact iff_of_false (by simp) (by simp)

theorem place_eq_ok_iff : f.place pc i = .ok g ↔
    pc.toNat % 2 = 0 ∧ pc.toNat + i.size ≤ flashSize ∧ f.isTaken (pc.toNat / 2) i.size = false ∧
      g = f.stored (pc.toNat / 2) i := by
  rw [place_eq_ok_iff_put, put_eq_none_iff]

theorem size_grow (slots : Array (Option Instruction)) (n : Nat) :
    (grow slots n).size = max slots.size n := by
  rw [grow, Array.size_append, Array.size_replicate]
  omega

theorem size_stored (f : Flash) (w : Nat) (i : Instruction) :
    (f.stored w i).slots.size = max f.slots.size (w + i.size / 2) := by
  rw [stored, Array.size_setIfInBounds, size_grow]

theorem at?_stored (f : Flash) (w : Nat) (i : Instruction) (v : Nat) :
    (f.stored w i).at? v = if v = w then some i else f.at? v := by
  have hgrow : (grow f.slots (w + i.size / 2))[v]?.join = f.slots[v]?.join := f.at?_grown _ v
  have hlt : w < (grow f.slots (w + i.size / 2)).size := by
    have hsize := i.size_cases
    rw [size_grow]
    omega
  rw [at?, stored, Array.getElem?_setIfInBounds]
  by_cases hv : v = w
  · rw [if_pos hv.symm, if_pos hv, if_pos (hv ▸ hlt)]
    rfl
  · rw [if_neg (Ne.symm hv), if_neg hv, hgrow, at?]

theorem isTaken_eq_false_iff : f.isTaken w i.size = false ↔
    f.at? w = none ∧ (2 < i.size → f.at? (w + 1) = none) ∧ (0 < w → f.reaches (w - 1) = false) := by
  have hbehind : (decide (0 < w) && f.reaches (w - 1)) = false ↔ (0 < w → f.reaches (w - 1) = false) := by
    cases hreaches : f.reaches (w - 1) <;> simp
  rw [isTaken, Bool.or_eq_false_iff, hbehind]
  rcases i.size_cases with hsize | hsize
  · rw [hsize]
    simp
  · rw [hsize]
    simp [List.range_succ, and_assoc]

theorem at?_eq_none (h : f.slots.size ≤ w) : f.at? w = none := by
  rw [at?, Array.getElem?_eq_none h, Option.join_none]

@[simp]
theorem at?_empty (w : Nat) : empty.at? w = none := at?_eq_none (Nat.zero_le w)

/-! ### Tidy images -/

/-- The image ends with its last instruction, inside the flash, and the second word of a long instruction
is empty. -/
structure Tidy (f : Flash) : Prop where
  /-- The end of the image is the end of its table. -/
  finish_eq : f.finish = 2 * f.slots.size
  /-- The image fits into the flash. -/
  finish_le : f.finish ≤ flashSize
  /-- Every instruction ends inside the table. -/
  fits : ∀ w i, f.at? w = some i → w + i.size / 2 ≤ f.slots.size
  /-- The second word of a long instruction is empty. -/
  second : ∀ w i, f.at? w = some i → 2 < i.size → f.at? (w + 1) = none
  /-- The table ends with the last instruction. -/
  last : f.slots.size = 0 ∨ ∃ w i, f.at? w = some i ∧ f.slots.size = w + i.size / 2

theorem tidy_empty : Tidy empty where
  finish_eq := rfl
  finish_le := Nat.zero_le _
  fits w i h := by simp at h
  second w i h := by simp at h
  last := .inl rfl

/-- Both words of an instruction that fits are inside the flash. -/
theorem Tidy.address_lt (hf : f.Tidy) (h : f.at? w = some i) : 2 * w + i.size ≤ flashSize := by
  have hfits := hf.fits w i h
  have hfinish := hf.finish_eq
  have hend := hf.finish_le
  have hsize := i.size_cases
  omega

theorem Tidy.place (hf : f.Tidy) (h : f.place pc i = .ok g) : g.Tidy := by
  obtain ⟨heven, hend, hfree, rfl⟩ := place_eq_ok_iff.mp h
  obtain ⟨hnone, hsecond, hbehind⟩ := isTaken_eq_false_iff.mp hfree
  have hsize := i.size_cases
  have hsizes := size_stored f (pc.toNat / 2) i
  have hfinish := hf.finish_eq
  have hfinish_le := hf.finish_le
  have hstored : (f.stored (pc.toNat / 2) i).finish = max f.finish (2 * (pc.toNat / 2) + i.size) := rfl
  refine ⟨by omega, by omega, fun w j hj => ?_, fun w j hj hlong => ?_, ?_⟩
  · rw [at?_stored] at hj
    split at hj
    · next hw =>
      obtain rfl := Option.some.inj hj
      omega
    · have hfits := hf.fits w j hj
      omega
  · rw [at?_stored] at hj ⊢
    by_cases hw : w = pc.toNat / 2
    · rw [if_pos hw] at hj
      obtain rfl := Option.some.inj hj
      rw [if_neg (by omega), hw]
      exact hsecond hlong
    · rw [if_neg hw] at hj
      rw [if_neg, hf.second w j hj hlong]
      -- a long instruction right before the new one would have been in its way
      intro hnext
      have hreaches := hbehind (by omega)
      rw [← hnext, Nat.add_sub_cancel, reaches, hj] at hreaches
      simp [hlong] at hreaches
  · refine .inr ?_
    by_cases hlarger : f.slots.size ≤ pc.toNat / 2 + i.size / 2
    · exact ⟨pc.toNat / 2, i, by rw [at?_stored, if_pos rfl], by omega⟩
    · rcases hf.last with hzero | ⟨w, j, hj, hlast⟩
      · omega
      · have hw : w ≠ pc.toNat / 2 := by
          rintro rfl
          rw [hnone] at hj
          exact absurd hj (by simp)
        exact ⟨w, j, by rw [at?_stored, if_neg hw, hj], by omega⟩

/-! ### Parts of a tidy image -/

/-- A tidy image some of whose instructions are missing. -/
structure PartOf (f p : Flash) : Prop where
  /-- The image is tidy. -/
  tidy : f.Tidy
  /-- Its instructions stand in the other image too. -/
  at_eq : ∀ w i, f.at? w = some i → p.at? w = some i

theorem partOf_empty (p : Flash) : empty.PartOf p :=
  ⟨tidy_empty, fun w i h => by simp at h⟩

/-- The address of a word. -/
def address (w : Nat) : Address := BitVec.ofNat 16 (2 * w)

theorem Tidy.toNat_address (hp : p.Tidy) (h : p.at? w = some i) : (address w).toNat = 2 * w := by
  have hend := hp.address_lt h
  have hsize := i.size_cases
  rw [flashSize] at hend
  rw [address, BitVec.toNat_ofNat]
  omega

/-- A missing instruction can be placed. -/
theorem PartOf.place (hf : f.PartOf p) (hp : p.Tidy) (h : p.at? w = some i) (hmissing : f.at? w = none) :
    ∃ g, f.place (address w) i = .ok g ∧ g.PartOf p ∧
      ∀ v, g.at? v = if v = w then some i else f.at? v := by
  have haddress := hp.toNat_address h
  have hword : (address w).toNat / 2 = w := by omega
  have hfree : f.isTaken w i.size = false := by
    refine isTaken_eq_false_iff.mpr ⟨hmissing, fun hlong => ?_, fun hpos => ?_⟩
    · by_contra hsome
      obtain ⟨j, hj⟩ := Option.ne_none_iff_exists'.mp hsome
      have hnone := hp.second w i h hlong
      rw [hf.at_eq _ j hj] at hnone
      exact absurd hnone (by simp)
    · by_contra hreaches
      obtain ⟨j, hj, hlong⟩ : ∃ j, f.at? (w - 1) = some j ∧ 2 < j.size := by
        rw [reaches, Bool.not_eq_false, Option.any_eq_true] at hreaches
        obtain ⟨j, hj, hlong⟩ := hreaches
        exact ⟨j, hj, of_decide_eq_true hlong⟩
      have hnone := hp.second _ j (hf.at_eq _ j hj) hlong
      rw [Nat.sub_add_cancel hpos, h] at hnone
      exact absurd hnone (by simp)
  have hplace : f.place (address w) i = .ok (f.stored w i) := by
    refine place_eq_ok_iff.mpr ⟨by omega, ?_, by rwa [hword], by rw [hword]⟩
    have hend := hp.address_lt h
    omega
  refine ⟨_, hplace, ⟨hf.tidy.place hplace, fun v j hj => ?_⟩, fun v => at?_stored f w i v⟩
  rw [at?_stored] at hj
  split at hj
  · next hv => rw [hv, h, ← hj]
  · exact hf.at_eq v j hj

/-- A part from which nothing is missing is the whole image. -/
theorem PartOf.eq_of_at (hf : f.PartOf p) (hp : p.Tidy)
    (hall : ∀ w i, p.at? w = some i → f.at? w = some i) : f = p := by
  have hle : ∀ {a b : Flash}, a.Tidy → b.Tidy → (∀ w i, a.at? w = some i → b.at? w = some i) →
      a.slots.size ≤ b.slots.size := by
    intro a b ha hb hab
    rcases ha.last with hzero | ⟨w, i, hi, hlast⟩
    · omega
    · exact hlast ▸ hb.fits w i (hab w i hi)
  have hsize : f.slots.size = p.slots.size :=
    le_antisymm (hle hf.tidy hp hf.at_eq) (hle hp hf.tidy hall)
  have hat : ∀ w, f.at? w = p.at? w := by
    intro w
    cases hw : p.at? w with
    | some i => exact hall w i hw
    | none =>
      by_contra hsome
      obtain ⟨j, hj⟩ := Option.ne_none_iff_exists'.mp hsome
      rw [hf.at_eq w j hj] at hw
      exact absurd hw (by simp)
  have hslots : f.slots = p.slots := by
    refine Array.ext hsize fun w hw hw' => ?_
    have hslot := hat w
    rw [at?, at?, Array.getElem?_eq_getElem hw, Array.getElem?_eq_getElem hw'] at hslot
    exact hslot
  have hfinish : f.finish = p.finish := by rw [hf.tidy.finish_eq, hp.finish_eq, hsize]
  cases f
  cases p
  exact congrArg₂ Flash.mk hslots hfinish

/-! ### All instructions -/

/-- The instructions with their words, in the order of addresses. -/
def entries (f : Flash) : List (Nat × Instruction) :=
  (List.range f.slots.size).filterMap fun w => (f.at? w).map fun i => (w, i)

theorem mem_entries : (w, i) ∈ f.entries ↔ f.at? w = some i := by
  rw [entries, List.mem_filterMap]
  constructor
  · rintro ⟨v, -, hv⟩
    obtain ⟨j, hj, heq⟩ := Option.map_eq_some_iff.mp hv
    obtain ⟨rfl, rfl⟩ := Prod.mk.inj heq
    exact hj
  · intro h
    have hlt : w < f.slots.size := by
      by_contra hge
      rw [at?_eq_none (Nat.le_of_not_lt hge)] at h
      exact absurd h (by simp)
    exact ⟨w, List.mem_range.mpr hlt, by rw [h, Option.map_some]⟩

theorem nodup_entries (f : Flash) : (f.entries.map Prod.fst).Nodup := by
  have hsub : (f.entries.map Prod.fst).Sublist (List.range f.slots.size) := by
    rw [entries]
    generalize List.range f.slots.size = ws
    induction ws with
    | nil => exact .slnil
    | cons w ws ih =>
      rw [List.filterMap_cons]
      cases f.at? w with
      | none => exact ih.cons w
      | some i => exact ih.cons_cons w
  exact List.nodup_range.sublist hsub

theorem toList_eq (f : Flash) : f.toList = f.entries.map fun (w, i) => (address w, i) := by
  have hzip : ∀ (slots : List (Option Instruction)) (k : Nat),
      (slots.zipIdx k).filterMap (fun e => e.1.map fun i => (BitVec.ofNat 16 (2 * e.2), i)) =
        (List.range slots.length).filterMap fun w =>
          slots[w]?.join.map fun i => (BitVec.ofNat 16 (2 * (w + k)), i) := by
    intro slots
    induction slots with
    | nil => intro k; rfl
    | cons slot slots ih =>
      intro k
      rw [List.zipIdx_cons, List.length_cons, List.range_succ_eq_map, List.filterMap_cons,
        List.filterMap_cons, List.filterMap_map, ih]
      have hshift : ((fun w => ((slot :: slots)[w]?.join.map fun i => (BitVec.ofNat 16 (2 * (w + k)), i)) :
            Nat → Option (Address × Instruction)) ∘ Nat.succ) =
          fun w => slots[w]?.join.map fun i => (BitVec.ofNat 16 (2 * (w + (k + 1))), i) := by
        funext w
        rw [Function.comp_apply, List.getElem?_cons_succ, Nat.succ_add_eq_add_succ]
      rw [hshift]
      simp
  have hlist : f.toList =
      f.slots.toList.zipIdx.filterMap fun e => e.1.map fun i => (BitVec.ofNat 16 (2 * e.2), i) := rfl
  rw [hlist, hzip f.slots.toList 0, entries, List.map_filterMap]
  simp only [Array.length_toList, Nat.add_zero, Option.map_map, at?, Array.getElem?_toList]
  rfl

theorem mem_toList : (pc, i) ∈ f.toList ↔ ∃ w, f.at? w = some i ∧ pc = address w := by
  rw [toList_eq, List.mem_map]
  constructor
  · rintro ⟨⟨w, j⟩, hmem, heq⟩
    obtain ⟨rfl, rfl⟩ := Prod.mk.inj heq
    exact ⟨w, mem_entries.mp hmem, rfl⟩
  · rintro ⟨w, hw, rfl⟩
    exact ⟨(w, i), mem_entries.mpr hw, rfl⟩

/-! ### Addresses, number and end -/

theorem Tidy.fetch_eq_ok_iff (hf : f.Tidy) :
    f.fetch pc = .ok i ↔ pc.toNat % 2 = 0 ∧ f.at? (pc.toNat / 2) = some i := by
  unfold fetch
  by_cases hend : f.finish ≤ pc.toNat
  · rw [if_pos hend]
    refine iff_of_false (by simp) fun ⟨_, hat⟩ => ?_
    have hfits := hf.fits _ _ hat
    have hfinish := hf.finish_eq
    have hsize := i.size_cases
    omega
  · rw [if_neg hend]
    by_cases hodd : pc.toNat % 2 = 1
    · rw [if_pos hodd]
      exact iff_of_false (by simp) fun h => absurd h.1 (by omega)
    · rw [if_neg hodd]
      cases f.at? (pc.toNat / 2) with
      | none => simp
      | some j =>
        simp only [Except.ok.injEq, Option.some.injEq]
        exact ⟨fun h => ⟨by omega, h⟩, And.right⟩

theorem Tidy.mem_toList_iff (hf : f.Tidy) : (pc, i) ∈ f.toList ↔ f.fetch pc = .ok i := by
  rw [mem_toList, hf.fetch_eq_ok_iff]
  constructor
  · rintro ⟨w, hat, rfl⟩
    have haddress := hf.toNat_address hat
    have hword : (address w).toNat / 2 = w := by omega
    exact ⟨by omega, by rwa [hword]⟩
  · rintro ⟨heven, hat⟩
    refine ⟨pc.toNat / 2, hat, BitVec.eq_of_toNat_eq ?_⟩
    rw [hf.toNat_address hat]
    omega

theorem length_toList (f : Flash) : f.toList.length = f.entries.length := by
  rw [toList_eq, List.length_map]

theorem count_eq (f : Flash) : f.count = f.toList.length := by
  rw [count, toList, List.length_filterMap_eq_countP, ← List.countP_eq_length_filter]
  conv_lhs => rw [← List.zipIdx_map_fst 0 f.slots.toList, List.countP_map]
  refine List.countP_congr fun e _ => ?_
  obtain ⟨slot, k⟩ := e
  cases slot <;> simp

theorem entries_stored_perm (h : f.at? w = none) (i : Instruction) :
    (f.stored w i).entries.Perm ((w, i) :: f.entries) := by
  have hnotMem : (w, i) ∉ f.entries := by
    rw [mem_entries, h]
    simp
  refine (List.perm_ext_iff_of_nodup (.of_map _ (nodup_entries _))
    (List.nodup_cons.mpr ⟨hnotMem, .of_map _ f.nodup_entries⟩)).mpr fun ⟨v, j⟩ => ?_
  rw [List.mem_cons, mem_entries, mem_entries, at?_stored, Prod.mk.injEq]
  by_cases hv : v = w
  · rw [if_pos hv, hv, h]
    simp [eq_comm]
  · rw [if_neg hv]
    simp [hv]

theorem count_stored (h : f.at? w = none) (i : Instruction) : (f.stored w i).count = f.count + 1 := by
  rw [count_eq, count_eq, length_toList, length_toList, (entries_stored_perm h i).length_eq,
    List.length_cons]

theorem pairwise_entries (f : Flash) : f.entries.Pairwise fun a b => a.1 < b.1 := by
  rw [entries]
  refine List.Pairwise.filterMap _ ?_ List.pairwise_lt_range
  intro v w hvw a ha b hb
  obtain ⟨i, -, rfl⟩ := Option.map_eq_some_iff.mp ha
  obtain ⟨j, -, rfl⟩ := Option.map_eq_some_iff.mp hb
  exact hvw

/-- Every instruction ends before the next one starts. -/
theorem Tidy.pairwise_toList (hf : f.Tidy) :
    f.toList.Pairwise fun a b => a.1.toNat + a.2.size ≤ b.1.toNat := by
  rw [toList_eq, List.pairwise_map]
  refine f.pairwise_entries.imp_of_mem fun {a b} ha hb hlt => ?_
  obtain ⟨w, i⟩ := a
  obtain ⟨v, j⟩ := b
  have hat := mem_entries.mp ha
  have hat' := mem_entries.mp hb
  dsimp only at hlt ⊢
  rw [hf.toNat_address hat, hf.toNat_address hat']
  rcases i.size_cases with hsize | hsize
  · omega
  · -- the second word of the first instruction is empty, so the next one does not start there
    have hnone := hf.second w i hat (by omega)
    have hne : w + 1 ≠ v := by
      rintro rfl
      rw [hat'] at hnone
      exact absurd hnone (by simp)
    omega

/-- The image ends where its last instruction ends. -/
theorem Tidy.isGreatest_finish (hf : f.Tidy) : f.toList = [] ∧ f.finish = 0 ∨
    IsGreatest {n | ∃ e ∈ f.toList, n = e.1.toNat + e.2.size} f.finish := by
  have hfinish := hf.finish_eq
  rcases hf.last with hzero | ⟨w, i, hat, hlast⟩
  · left
    refine ⟨?_, by omega⟩
    rw [toList_eq, entries, hzero]
    rfl
  · refine .inr ⟨⟨(address w, i), mem_toList.mpr ⟨w, hat, rfl⟩, ?_⟩, ?_⟩
    · have hsize := i.size_cases
      dsimp only
      rw [hf.toNat_address hat]
      omega
    · rintro n ⟨⟨pc, j⟩, hmem, rfl⟩
      obtain ⟨v, hat', rfl⟩ := mem_toList.mp hmem
      have hfits := hf.fits v j hat'
      have hsize := j.size_cases
      dsimp only
      rw [hf.toNat_address hat']
      omega

/-! ### A single instruction -/

theorem put_empty (i : Instruction) : empty.put 0#16 i = (empty.stored 0 i, none) := by
  refine put_eq_none_iff.mpr ⟨rfl, ?_, ?_, rfl⟩
  · have hsize := i.size_cases
    rw [flashSize, BitVec.toNat_ofNat]
    omega
  · exact isTaken_eq_false_iff.mpr
      ⟨at?_empty 0, fun _ => at?_empty 1, fun hpos => absurd hpos (Nat.lt_irrefl 0)⟩

theorem place_empty (i : Instruction) : empty.place 0#16 i = .ok (empty.stored 0 i) :=
  place_eq_ok_iff_put.mpr (put_empty i)

theorem ofInstructions_singleton (i : Instruction) : ofInstructions [i] = empty.stored 0 i := by
  rw [ofInstructions, placeAll, put_empty, placeAll]

theorem toList_ofInstructions_singleton (i : Instruction) : (ofInstructions [i]).toList = [(0#16, i)] := by
  rw [ofInstructions_singleton]
  rcases i.size_cases with hsize | hsize
  · simp [stored, toList, empty, grow, hsize]
  · simp [stored, toList, empty, grow, hsize]

end Flash

end StackDepth
