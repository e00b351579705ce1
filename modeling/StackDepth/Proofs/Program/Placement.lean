import Mathlib
import StackDepth.Proofs.Program.Flash

/-!
# Histories of placements

Instructions are placed in any order and at any address, and some of the calls fail. A call that fails for
an overlap has already grown the table, so that an image may end in empty slots and is not tidy. What
remains is that the instructions in it are those of the calls that succeeded, each at its address, that
their bytes are apart, and that the table reaches to the end of the last one.

* `Flash.Records`: what holds of an image and of the calls that succeeded;
* `Flash.Records.isTaken_iff`: the three words that are looked at tell whether bytes are shared;
* `Flash.Records.record`: the next call, whatever comes of it;
* `Flash.checkedPut`, `Flash.checkedFetch`: the same calls, where an index outside the table is a failure;
* `Flash.faithful_history`: what every history of calls guarantees.
-/

namespace StackDepth

namespace Flash

variable {f g : Flash} {pc q : Address} {i j : Instruction} {a b c e : Address × Instruction}
  {placed : List (Address × Instruction)} {w n : Nat}

/-- The bytes of an instruction at an address. -/
def bytes (e : Address × Instruction) : Finset Nat := Finset.Ico e.1.toNat (e.1.toNat + e.2.size)

theorem disjoint_bytes_iff : Disjoint (bytes a) (bytes b) ↔
    a.1.toNat + a.2.size ≤ b.1.toNat ∨ b.1.toNat + b.2.size ≤ a.1.toNat := by
  have ha := a.2.size_cases
  have hb := b.2.size_cases
  rw [← Finset.disjoint_coe, bytes, bytes, Finset.coe_Ico, Finset.coe_Ico, Set.Ico_disjoint_Ico]
  omega

/-- One call, and the calls that have succeeded with it, the latest first. -/
def record (p : Flash × List (Address × Instruction)) (c : Address × Instruction) :
    Flash × List (Address × Instruction) :=
  match p.1.put c.1 c.2 with
  | (g, none) => (g, c :: p.2)
  | (g, some _) => (g, p.2)

/-- The image that a sequence of calls leaves, with the calls that succeeded. -/
def history (calls : List (Address × Instruction)) : Flash × List (Address × Instruction) :=
  calls.foldl record (.empty, [])

/-- The bytes up to the end of the last instruction. -/
def extent (placed : List (Address × Instruction)) : Nat :=
  placed.foldr (fun e n => max (e.1.toNat + e.2.size) n) 0

theorem le_extent (h : e ∈ placed) : e.1.toNat + e.2.size ≤ extent placed := by
  induction placed with
  | nil => exact absurd h List.not_mem_nil
  | cons c placed ih =>
    rw [extent, List.foldr_cons]
    rcases List.mem_cons.mp h with rfl | hmem
    · exact le_max_left _ _
    · exact le_max_of_le_right (ih hmem)

/-! ### Growing the table -/

theorem finish_grown (f : Flash) (n : Nat) : (f.grown n).finish = f.finish := rfl

theorem fetch_grown (f : Flash) (n : Nat) (pc : Address) : (f.grown n).fetch pc = f.fetch pc := by
  simp only [fetch, at?_grown, finish_grown]

theorem entries_grown (f : Flash) (n : Nat) : (f.grown n).entries = f.entries := by
  have hsize : (f.grown n).slots.size = f.slots.size + (n - f.slots.size) := by
    rw [grown, size_grow]
    omega
  have hbehind : (((List.range (n - f.slots.size)).map (f.slots.size + ·)).filterMap fun w =>
      (f.at? w).map fun i => (w, i)) = [] := by
    simp [List.filterMap_map, at?_eq_none]
  rw [entries, hsize, List.range_add, List.filterMap_append]
  simp only [at?_grown]
  rw [hbehind, List.append_nil, entries]

theorem toList_grown (f : Flash) (n : Nat) : (f.grown n).toList = f.toList := by
  rw [toList_eq, toList_eq, entries_grown]

/-! ### The calls that succeeded -/

/-- The image holds the instructions of the calls that succeeded and no other ones. -/
structure Records (f : Flash) (placed : List (Address × Instruction)) : Prop where
  /-- Instructions stand at even addresses inside the flash. -/
  inside : ∀ e ∈ placed, e.1.toNat % 2 = 0 ∧ e.1.toNat + e.2.size ≤ flashSize
  /-- No two instructions share a byte. -/
  apart : placed.Pairwise fun a b => Disjoint (bytes a) (bytes b)
  /-- The table holds the instructions that were placed. -/
  at_iff : ∀ w i, f.at? w = some i ↔ ∃ pc, (pc, i) ∈ placed ∧ pc.toNat = 2 * w
  /-- The end is the end of the last instruction. -/
  finish_eq : f.finish = extent placed
  /-- The table reaches to the end. -/
  finish_le : f.finish ≤ 2 * f.slots.size

theorem records_empty : empty.Records [] where
  inside e h := absurd h List.not_mem_nil
  apart := List.Pairwise.nil
  at_iff w i := by simp
  finish_eq := rfl
  finish_le := Nat.zero_le _

theorem Records.grown (hf : f.Records placed) (n : Nat) : (f.grown n).Records placed where
  inside := hf.inside
  apart := hf.apart
  at_iff w i := by rw [at?_grown, hf.at_iff]
  finish_eq := hf.finish_eq
  finish_le := by
    have hle := hf.finish_le
    rw [finish_grown, Flash.grown, size_grow]
    omega

theorem Records.at_of_mem (hf : f.Records placed) (h : (pc, i) ∈ placed) :
    f.at? (pc.toNat / 2) = some i := by
  have heven : pc.toNat % 2 = 0 := (hf.inside _ h).1
  exact (hf.at_iff _ _).mpr ⟨pc, h, by omega⟩

theorem reaches_iff : f.reaches w = true ↔ ∃ j, f.at? w = some j ∧ 2 < j.size := by
  simp only [reaches, Option.any_eq_true, decide_eq_true_eq]

/-- The words that are looked at are free exactly if no byte is shared. -/
theorem Records.isTaken_iff (hf : f.Records placed) (hpc : pc.toNat % 2 = 0) :
    f.isTaken (pc.toNat / 2) i.size = false ↔ ∀ e ∈ placed, Disjoint (bytes (pc, i)) (bytes e) := by
  have hsize := i.size_cases
  rw [isTaken_eq_false_iff]
  constructor
  · intro ⟨hword, hsecond, hbehind⟩ ⟨q, j⟩ hmem
    have hq : q.toNat % 2 = 0 := (hf.inside _ hmem).1
    have hat := hf.at_of_mem hmem
    have hsize' := j.size_cases
    rw [disjoint_bytes_iff]
    by_contra hmeet
    dsimp only at hmeet
    -- at even addresses there are three ways to meet
    have hways : q.toNat / 2 = pc.toNat / 2 ∨ q.toNat / 2 = pc.toNat / 2 + 1 ∧ 2 < i.size ∨
        q.toNat / 2 = pc.toNat / 2 - 1 ∧ 0 < pc.toNat / 2 ∧ 2 < j.size := by
      omega
    rcases hways with hsame | ⟨hnext, hlong⟩ | ⟨hbefore, hpos, hlong⟩
    · rw [hsame, hword] at hat
      exact absurd hat (by simp)
    · rw [hnext, hsecond hlong] at hat
      exact absurd hat (by simp)
    · rw [hbefore] at hat
      exact Bool.false_ne_true ((hbehind hpos).symm.trans (reaches_iff.mpr ⟨j, hat, hlong⟩))
  · intro h
    have hapart : ∀ v j, f.at? v = some j → pc.toNat + i.size ≤ 2 * v ∨ 2 * v + j.size ≤ pc.toNat := by
      intro v j hat
      obtain ⟨q, hmem, hq⟩ := (hf.at_iff v j).mp hat
      have hdisjoint := disjoint_bytes_iff.mp (h _ hmem)
      rw [← hq]
      exact hdisjoint
    have hnone : ∀ v, 2 * v < pc.toNat + i.size → pc.toNat ≤ 2 * v → f.at? v = none := by
      intro v hlt hle
      refine Option.eq_none_iff_forall_ne_some.mpr fun j hat => ?_
      have hsize' := j.size_cases
      have hends := hapart v j hat
      omega
    refine ⟨hnone _ (by omega) (by omega), fun hlong => hnone _ (by omega) (by omega), fun hpos => ?_⟩
    refine Bool.eq_false_of_not_eq_true fun hreaches => ?_
    obtain ⟨j, hat, hlong⟩ := reaches_iff.mp hreaches
    have hends := hapart _ j hat
    omega

theorem Records.stored (hf : f.Records placed) (hpc : pc.toNat % 2 = 0)
    (hend : pc.toNat + i.size ≤ flashSize) (hfree : f.isTaken (pc.toNat / 2) i.size = false) :
    (f.stored (pc.toNat / 2) i).Records ((pc, i) :: placed) where
  inside e he := by
    rcases List.mem_cons.mp he with rfl | hmem
    · exact ⟨hpc, hend⟩
    · exact hf.inside e hmem
  apart := List.pairwise_cons.mpr ⟨(hf.isTaken_iff hpc).mp hfree, hf.apart⟩
  at_iff w j := by
    rw [at?_stored]
    by_cases hw : w = pc.toNat / 2
    · have hnone := (isTaken_eq_false_iff.mp hfree).1
      rw [if_pos hw]
      constructor
      · intro h
        exact ⟨pc, by rw [Option.some.inj h]; exact List.mem_cons_self, by omega⟩
      · intro ⟨q, hmem, hq⟩
        rcases List.mem_cons.mp hmem with heq | hold
        · exact congrArg some (Prod.mk.inj heq).2.symm
        · have hat := hf.at_of_mem hold
          rw [show q.toNat / 2 = pc.toNat / 2 by omega, hnone] at hat
          exact absurd hat (by simp)
    · rw [if_neg hw, hf.at_iff]
      refine exists_congr fun q => and_congr_left fun hq => ?_
      rw [List.mem_cons, or_iff_right]
      intro heq
      rw [(Prod.mk.inj heq).1] at hq
      omega
  finish_eq := by
    have hfinish := hf.finish_eq
    have hpc' : 2 * (pc.toNat / 2) = pc.toNat := by omega
    rw [Flash.stored, extent, List.foldr_cons, hpc', max_comm, hfinish]
    rfl
  finish_le := by
    have hle := hf.finish_le
    have hsize := i.size_cases
    have hfinish : (f.stored (pc.toNat / 2) i).finish = max f.finish (2 * (pc.toNat / 2) + i.size) := rfl
    rw [size_stored, hfinish]
    omega

/-- A call keeps the records, whatever comes of it. -/
theorem Records.record (hf : f.Records placed) (c : Address × Instruction) :
    (record (f, placed) c).1.Records (record (f, placed) c).2 := by
  rw [Flash.record, put_eq]
  by_cases hodd : c.1.toNat % 2 = 1
  · rw [if_pos hodd]
    exact hf
  · by_cases hend : flashSize < c.1.toNat + c.2.size
    · rw [if_neg hodd, if_pos hend]
      exact hf
    · cases htaken : f.isTaken (c.1.toNat / 2) c.2.size with
      | true =>
        rw [if_neg hodd, if_neg hend, if_pos rfl]
        exact hf.grown _
      | false =>
        rw [if_neg hodd, if_neg hend, if_neg Bool.false_ne_true]
        exact hf.stored (by omega) (by omega) htaken

theorem records_history (calls : List (Address × Instruction)) :
    (history calls).1.Records (history calls).2 := by
  rw [history]
  have hrun : ∀ (p : Flash × List (Address × Instruction)), p.1.Records p.2 →
      (calls.foldl Flash.record p).1.Records (calls.foldl Flash.record p).2 := by
    induction calls with
    | nil => exact fun p hp => hp
    | cons c calls ih => exact fun p hp => ih _ (hp.record c)
  exact hrun _ records_empty

/-! ### Reading -/

theorem Records.fetch_eq_ok_iff (hf : f.Records placed) : f.fetch pc = .ok i ↔ (pc, i) ∈ placed := by
  constructor
  · intro h
    unfold fetch at h
    split at h
    · exact absurd h (by simp)
    · split at h
      · exact absurd h (by simp)
      · next heven =>
        cases hat : f.at? (pc.toNat / 2) with
        | none =>
          rw [hat] at h
          exact absurd h (by simp)
        | some j =>
          rw [hat] at h
          obtain ⟨q, hmem, hq⟩ := (hf.at_iff _ j).mp hat
          have hpc : q = pc := BitVec.eq_of_toNat_eq (by omega)
          rw [← hpc, ← Except.ok.inj h]
          exact hmem
  · intro h
    have heven : pc.toNat % 2 = 0 := (hf.inside _ h).1
    have hend : pc.toNat + i.size ≤ extent placed := le_extent h
    have hsize := i.size_cases
    have hfinish := hf.finish_eq
    rw [fetch, if_neg (by omega), if_neg (by omega), hf.at_of_mem h]

theorem fetch_cases (f : Flash) (pc : Address) : (∃ i, f.fetch pc = .ok i) ∨
    f.fetch pc = .error (if f.finish ≤ pc.toNat then .pastEnd pc f.finish else .unaligned pc) := by
  unfold fetch
  split
  · exact .inr rfl
  · split
    · exact .inr rfl
    · cases f.at? (pc.toNat / 2) with
      | none => exact .inr rfl
      | some i => exact .inl ⟨i, rfl⟩

theorem Records.put_snd (hf : f.Records placed) (pc : Address) (i : Instruction) : (f.put pc i).2 =
    if pc.toNat % 2 = 1 then some (.misaligned pc)
    else if flashSize < pc.toNat + i.size then some (.pastEnd i pc)
    else if ∀ e ∈ placed, Disjoint (bytes (pc, i)) (bytes e) then none
    else some (.overlap pc) := by
  rw [put_eq]
  split
  · rfl
  · next heven =>
    split
    · rfl
    · have htaken := hf.isTaken_iff (i := i) (show pc.toNat % 2 = 0 by omega)
      cases hcase : f.isTaken (pc.toNat / 2) i.size with
      | true => rw [if_pos rfl, if_neg fun h => Bool.false_ne_true ((htaken.mpr h).symm.trans hcase)]
      | false => rw [if_neg Bool.false_ne_true, if_pos (htaken.mp hcase)]

/-- What can be seen of an image. -/
structure SameView (f g : Flash) : Prop where
  /-- Every address gives the same instruction or error. -/
  fetch_eq : ∀ pc, f.fetch pc = g.fetch pc
  /-- Every address has the same next one. -/
  next_eq : ∀ pc, f.next pc = g.next pc
  /-- The instructions are listed alike. -/
  toList_eq : f.toList = g.toList
  /-- Their number is the same. -/
  count_eq : f.count = g.count
  /-- The end is the same. -/
  finish_eq : f.finish = g.finish

theorem sameView_refl (f : Flash) : f.SameView f :=
  ⟨fun _ => rfl, fun _ => rfl, rfl, rfl, rfl⟩

theorem sameView_grown (f : Flash) (n : Nat) : (f.grown n).SameView f where
  fetch_eq := fetch_grown f n
  next_eq pc := by rw [next, next, fetch_grown]
  toList_eq := toList_grown f n
  count_eq := by rw [Flash.count_eq, Flash.count_eq, toList_grown]
  finish_eq := rfl

theorem sameView_put (h : (f.put pc i).2 ≠ none) : (f.put pc i).1.SameView f := by
  rw [put_eq] at h ⊢
  split at h
  · next hodd =>
    rw [if_pos hodd]
    exact f.sameView_refl
  · next heven =>
    rw [if_neg heven]
    split at h
    · next hend =>
      rw [if_pos hend]
      exact f.sameView_refl
    · next hfits =>
      rw [if_neg hfits]
      split at h
      · next htaken =>
        rw [if_pos htaken]
        exact f.sameView_grown _
      · exact absurd rfl h

/-! ### Indices into the table -/

/-- Word `k` of an instruction at word `w` is taken, or, for the first word, the instruction before it
reaches into it. Nothing if an index lies outside the table. -/
def checkedWord (f : Flash) (w k : Nat) : Option Bool := do
  let slot ← f.slots[w + k]?
  if slot.isSome then return true
  else if k = 0 ∧ 0 < w then
    let before ← f.slots[w - 1]?
    return before.any fun i => 2 < i.size
  else return false

/-- One of the words of an instruction is taken, with the words looked at in order. -/
def checkedTaken (f : Flash) (w size : Nat) : Option Bool :=
  (List.range (size / 2)).anyM (f.checkedWord w)

/-- A call that gives nothing if an index lies outside the table. -/
def checkedPut (f : Flash) (pc : Address) (i : Instruction) : Option (Flash × Option PlaceError) :=
  let w := pc.toNat / 2
  if pc.toNat % 2 = 1 then some (f, some (.misaligned pc))
  else if flashSize < pc.toNat + i.size then some (f, some (.pastEnd i pc))
  else do
    let g := f.grown (w + i.size / 2)
    if ← g.checkedTaken w i.size then some (g, some (.overlap pc))
    else if h : w < g.slots.size then
      some ({ slots := g.slots.set w (some i), finish := max f.finish (pc.toNat + i.size) }, none)
    else none

/-- The instruction at an address; nothing if an index lies outside the table. -/
def checkedFetch (f : Flash) (pc : Address) : Option (Except FetchError Instruction) :=
  if f.finish ≤ pc.toNat then some (.error (.pastEnd pc f.finish))
  else if pc.toNat % 2 = 1 then some (.error (.unaligned pc))
  else do
    let slot ← f.slots[pc.toNat / 2]?
    some (slot.elim (.error (.unaligned pc)) .ok)

theorem getElem?_slots (h : w < f.slots.size) : f.slots[w]? = some (f.at? w) := by
  rw [at?, Array.getElem?_eq_getElem h]
  rfl

theorem checkedWord_eq (h : w + n < f.slots.size) : f.checkedWord w n =
    some ((f.at? (w + n)).isSome || decide (n = 0 ∧ 0 < w) && f.reaches (w - 1)) := by
  rw [checkedWord, getElem?_slots h, Option.bind_eq_bind, Option.bind_some]
  cases (f.at? (w + n)).isSome with
  | true => rfl
  | false =>
    by_cases hfirst : n = 0 ∧ 0 < w
    · rw [if_neg Bool.false_ne_true, if_pos hfirst, decide_eq_true hfirst,
        getElem?_slots (show w - 1 < f.slots.size by omega)]
      rfl
    · rw [if_neg Bool.false_ne_true, if_neg hfirst, decide_eq_false hfirst]
      rfl

theorem checkedTaken_eq (i : Instruction) (h : w + i.size / 2 ≤ f.slots.size) :
    f.checkedTaken w i.size = some (f.isTaken w i.size) := by
  have hany : ∀ ks : List Nat, (∀ k ∈ ks, w + k < f.slots.size) → ks.anyM (f.checkedWord w) =
      some (ks.any fun k => (f.at? (w + k)).isSome || decide (k = 0 ∧ 0 < w) && f.reaches (w - 1)) := by
    intro ks hks
    induction ks with
    | nil => rfl
    | cons k ks ih =>
      have hhead := checkedWord_eq (hks k List.mem_cons_self)
      have htail := ih fun l hl => hks l (List.mem_cons_of_mem k hl)
      rw [List.anyM, hhead, List.any_cons, htail, Option.bind_eq_bind, Option.bind_some]
      cases (f.at? (w + k)).isSome || decide (k = 0 ∧ 0 < w) && f.reaches (w - 1) <;> rfl
  rw [checkedTaken, hany, isTaken]
  · rcases i.size_cases with hsize | hsize
    · simp [hsize]
    · simp [hsize, List.range_succ, Bool.or_right_comm]
  · intro k hk
    have hlt := List.mem_range.mp hk
    omega

theorem checkedPut_eq (f : Flash) (pc : Address) (i : Instruction) :
    f.checkedPut pc i = some (f.put pc i) := by
  have hsize := i.size_cases
  have hgrown : (f.grown (pc.toNat / 2 + i.size / 2)).slots.size =
      max f.slots.size (pc.toNat / 2 + i.size / 2) := size_grow _ _
  have hlt : pc.toNat / 2 < (f.grown (pc.toNat / 2 + i.size / 2)).slots.size := by omega
  have htaken := checkedTaken_eq (f := f.grown (pc.toNat / 2 + i.size / 2)) (w := pc.toNat / 2) i
    (by omega)
  have hsame : (f.grown (pc.toNat / 2 + i.size / 2)).isTaken (pc.toNat / 2) i.size =
      f.isTaken (pc.toNat / 2) i.size := by
    simp only [isTaken, reaches, at?_grown]
  rw [checkedPut, put]
  split
  · rfl
  · split
    · rfl
    · dsimp only
      rw [htaken, hsame, Option.bind_eq_bind, Option.bind_some, dif_pos hlt]
      split
      · rfl
      · have hset : (grow f.slots (pc.toNat / 2 + i.size / 2)).setIfInBounds (pc.toNat / 2) (some i) =
            (grow f.slots (pc.toNat / 2 + i.size / 2)).set (pc.toNat / 2) (some i) hlt := dif_pos hlt
        rw [hset]
        rfl

theorem Records.checkedFetch_eq (hf : f.Records placed) (pc : Address) :
    f.checkedFetch pc = some (f.fetch pc) := by
  have hle := hf.finish_le
  rw [checkedFetch, fetch]
  split
  · rfl
  · split
    · rfl
    · rw [getElem?_slots (by omega)]
      cases f.at? (pc.toNat / 2) <;> rfl

/-! ### All histories -/

/-- What an image guarantees, with the calls that have succeeded so far. -/
structure Faithful (f : Flash) (placed : List (Address × Instruction)) : Prop where
  /-- Instructions stand at even addresses inside the flash. -/
  inside : ∀ e ∈ placed, e.1.toNat % 2 = 0 ∧ e.1.toNat + e.2.size ≤ flashSize
  /-- No two instructions share a byte. -/
  apart : placed.Pairwise fun a b => Disjoint (bytes a) (bytes b)
  /-- Another call succeeds exactly if it would keep this so, and says what it would break first. -/
  outcome : ∀ pc i, (f.put pc i).2 =
    if pc.toNat % 2 = 1 then some (.misaligned pc)
    else if flashSize < pc.toNat + i.size then some (.pastEnd i pc)
    else if ∀ e ∈ placed, Disjoint (bytes (pc, i)) (bytes e) then none
    else some (.overlap pc)
  /-- A call that fails changes nothing that can be seen. -/
  refused : ∀ pc i, (f.put pc i).2 ≠ none → (f.put pc i).1.SameView f
  /-- The instructions that can be fetched are those that were placed. -/
  fetched : ∀ pc i, f.fetch pc = .ok i ↔ (pc, i) ∈ placed
  /-- Elsewhere the error tells whether the address lies before the end. -/
  missing : ∀ pc, (∀ i, (pc, i) ∉ placed) →
    f.fetch pc = .error (if f.finish ≤ pc.toNat then .pastEnd pc f.finish else .unaligned pc)
  /-- The end is the end of the last instruction. -/
  finish_eq : f.finish = extent placed
  /-- No index lies outside the table. -/
  put_inBounds : ∀ pc i, f.checkedPut pc i = some (f.put pc i)
  /-- Neither when an instruction is placed nor when it is fetched. -/
  fetch_inBounds : ∀ pc, f.checkedFetch pc = some (f.fetch pc)

theorem Records.faithful (hf : f.Records placed) : f.Faithful placed where
  inside := hf.inside
  apart := hf.apart
  outcome := hf.put_snd
  refused _ _ h := sameView_put h
  fetched _ _ := hf.fetch_eq_ok_iff
  missing pc hnone := by
    refine (f.fetch_cases pc).resolve_left fun ⟨i, hi⟩ => ?_
    exact hnone i (hf.fetch_eq_ok_iff.mp hi)
  finish_eq := hf.finish_eq
  put_inBounds := checkedPut_eq f
  fetch_inBounds := hf.checkedFetch_eq

/-- After any sequence of calls, successful and failing ones mixed, the instructions in the image are those
of the calls that succeeded, and every further call is answered by them. -/
theorem faithful_history (calls : List (Address × Instruction)) :
    (history calls).1.Faithful (history calls).2 :=
  (records_history calls).faithful

/-- The second call fails, but has grown the table. -/
example : (history [(0#16, { op := .LDS }), (2#16, { op := .LDS })]).2 = [(0#16, { op := .LDS })] ∧
    (history [(0#16, { op := .LDS }), (2#16, { op := .LDS })]).1.slots.size = 3 ∧
    (history [(0#16, { op := .LDS }), (2#16, { op := .LDS })]).1.finish = 4 := by
  decide

end Flash

end StackDepth
