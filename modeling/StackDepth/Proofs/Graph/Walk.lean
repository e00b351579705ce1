import Mathlib
import StackDepth.Proofs.Graph.Search
import StackDepth.Proofs.Graph.WellFormed

/-!
# Walks in a graph

A walk follows edges and adds up their weights. The lists of neighbours that the searches use have the
same arrows as the edges, forwards and backwards.

Main statements:

* `Graph.Walk.append`, `Graph.exists_walk`: walks compose, and every path is one;
* `Graph.mem_neighbours_adjacency`, `Graph.mem_neighbours_reverseLists`: arrows and lists.
-/

namespace StackDepth

namespace Graph

/-- Some edge leads from `u` to `v`. -/
def Arrow (g : Graph) (u v : StateId) : Prop := ∃ k, ⟨u, v, k⟩ ∈ g.edges

/-- A walk from one state to another and its weight. -/
inductive Walk (g : Graph) : StateId → StateId → Int → Prop where
  /-- No edge. -/
  | refl (u : StateId) : Walk g u u 0
  /-- An edge and a walk from its target. -/
  | cons {u v t : StateId} {k : EdgeKind} {w : Int} (he : ⟨u, v, k⟩ ∈ g.edges) (h : Walk g v t w) :
      Walk g u t (k.weight + w)

variable {g : Graph}

theorem Walk.append {u v t : StateId} {w x : Int} (h : g.Walk u v w) (h' : g.Walk v t x) :
    g.Walk u t (w + x) := by
  induction h with
  | refl u =>
    rw [zero_add]
    exact h'
  | cons he _ ih =>
    rw [add_assoc]
    exact .cons he (ih h')

theorem Walk.single {u v : StateId} {k : EdgeKind} (he : ⟨u, v, k⟩ ∈ g.edges) :
    g.Walk u v k.weight := by
  have h := Walk.cons he (.refl v)
  rwa [add_zero] at h

theorem Walk.tail {u v t : StateId} {w : Int} {k : EdgeKind} (h : g.Walk u v w)
    (he : ⟨v, t, k⟩ ∈ g.edges) : g.Walk u t (w + k.weight) :=
  h.append (.single he)

/-- Every path is a walk of some weight. -/
theorem exists_walk {u v : StateId} (h : Relation.ReflTransGen g.Arrow u v) : ∃ w, g.Walk u v w := by
  induction h with
  | refl => exact ⟨0, .refl u⟩
  | tail _ harrow ih =>
    obtain ⟨w, hw⟩ := ih
    obtain ⟨k, hk⟩ := harrow
    exact ⟨w + k.weight, hw.tail hk⟩

theorem Walk.path {u v : StateId} {w : Int} (h : g.Walk u v w) :
    Relation.ReflTransGen g.Arrow u v := by
  induction h with
  | refl u => exact .refl
  | cons he _ ih => exact .head ⟨_, he⟩ ih

/-- A walk stays among the nodes. -/
theorem Walk.lt (hg : g.WellFormed) {u v : StateId} {w : Int} (h : g.Walk u v w) (hu : u < g.size) :
    v < g.size := by
  induction h with
  | refl u => exact hu
  | cons he _ ih => exact ih (hg.target_lt _ he)

/-! ### Lists of neighbours -/

theorem mem_sortedIds (ids : List StateId) (v : StateId) : v ∈ sortedIds ids ↔ v ∈ ids := by
  rw [sortedIds, List.mem_eraseDups, List.mem_mergeSort]

theorem mem_successors (hg : g.WellFormed) (u v : StateId) : v ∈ g.successors u ↔ g.Arrow u v := by
  rw [successors, mem_sortedIds, List.mem_map]
  constructor
  · rintro ⟨e, he, rfl⟩
    obtain ⟨a, ha, rfl⟩ := (hg.mem_outgoing u e).mp he
    rw [edge_eq ha]
    exact ⟨a.kind, Array.mem_of_getElem? ha⟩
  · rintro ⟨k, hk⟩
    obtain ⟨e, he⟩ := Array.mem_iff_getElem?.mp hk
    refine ⟨e, (hg.mem_outgoing u e).mpr ⟨_, he, rfl⟩, ?_⟩
    rw [edge_eq he]

theorem size_adjacency (g : Graph) : g.adjacency.size = g.size := by
  simp [adjacency]

theorem mem_neighbours_adjacency (hg : g.WellFormed) (u v : StateId) :
    v ∈ neighbours g.adjacency u ↔ g.Arrow u v := by
  by_cases hu : u < g.size
  · rw [← mem_successors hg]
    simp [neighbours, adjacency, Array.getD_eq_getD_getElem?, hu]
  · have hnone : neighbours g.adjacency u = [] := by
      simp [neighbours, adjacency, Array.getD_eq_getD_getElem?, hu]
    rw [hnone]
    refine ⟨fun h => absurd h List.not_mem_nil, ?_⟩
    rintro ⟨k, hk⟩
    exact absurd (hg.source_lt _ hk) hu

/-- One arrow turned around is added to the list of its target. -/
theorem mem_neighbours_modify (lists : Array (List StateId)) (s t u v : StateId) :
    v ∈ neighbours (lists.modify t (s :: ·)) u ↔
      v ∈ neighbours lists u ∨ v = s ∧ u = t ∧ u < lists.size := by
  simp only [neighbours, Array.getD_eq_getD_getElem?, Array.getElem?_modify]
  by_cases hu : u < lists.size
  · by_cases htu : t = u
    · simp [hu, htu, or_comm]
    · simp [hu, htu, Ne.symm htu]
  · simp [hu]

/-- The arrows to the targets of one state turned around. -/
theorem mem_neighbours_foldl (targets : List StateId) (s : StateId) (lists : Array (List StateId))
    (u v : StateId) :
    (targets.foldl (fun acc t => acc.modify t (s :: ·)) lists).size = lists.size ∧
      (v ∈ neighbours (targets.foldl (fun acc t => acc.modify t (s :: ·)) lists) u ↔
        v ∈ neighbours lists u ∨ v = s ∧ u ∈ targets ∧ u < lists.size) := by
  induction targets generalizing lists with
  | nil => simp
  | cons t targets ih =>
    obtain ⟨hsize, hmem⟩ := ih (lists.modify t (s :: ·))
    rw [Array.size_modify] at hsize hmem
    rw [List.foldl_cons]
    refine ⟨hsize, hmem.trans ?_⟩
    rw [mem_neighbours_modify, List.mem_cons]
    tauto

/-- The lists of neighbours with every arrow turned around. -/
theorem mem_neighbours_reverseLists (lists : Array (List StateId)) (u v : StateId) :
    (reverseLists lists).size = lists.size ∧
      (v ∈ neighbours (reverseLists lists) u ↔ u ∈ neighbours lists v ∧ u < lists.size) := by
  have hfold : ∀ pairs : List (List StateId × StateId),
      (pairs.foldr (fun (targets, source) acc =>
        targets.foldl (fun acc t => acc.modify t (source :: ·)) acc)
        (Array.replicate lists.size [])).size = lists.size ∧
      (v ∈ neighbours (pairs.foldr (fun (targets, source) acc =>
        targets.foldl (fun acc t => acc.modify t (source :: ·)) acc)
        (Array.replicate lists.size [])) u ↔
        ∃ targets, (targets, v) ∈ pairs ∧ u ∈ targets ∧ u < lists.size) := by
    intro pairs
    induction pairs with
    | nil =>
      have hnone : neighbours (Array.replicate lists.size []) u = [] := by
        rw [neighbours, Array.getD_eq_getD_getElem?, Array.getElem?_replicate]
        split <;> rfl
      simp [hnone]
    | cons pair pairs ih =>
      obtain ⟨targets, source⟩ := pair
      obtain ⟨hsize, hmem⟩ := ih
      rw [List.foldr_cons]
      have hstep := mem_neighbours_foldl targets source (pairs.foldr (fun (targets, source) acc =>
        targets.foldl (fun acc t => acc.modify t (source :: ·)) acc)
        (Array.replicate lists.size [])) u v
      rw [hsize] at hstep
      refine ⟨hstep.1, hstep.2.trans ?_⟩
      rw [hmem]
      constructor
      · rintro (⟨ts, hts, hu⟩ | ⟨rfl, hu⟩)
        · exact ⟨ts, List.mem_cons_of_mem _ hts, hu⟩
        · exact ⟨targets, List.mem_cons_self, hu⟩
      · rintro ⟨ts, hts, hu⟩
        rcases List.mem_cons.mp hts with heq | hts
        · obtain ⟨rfl, rfl⟩ := Prod.mk.inj heq
          exact .inr ⟨rfl, hu⟩
        · exact .inl ⟨ts, hts, hu⟩
  obtain ⟨hsize, hmem⟩ := hfold lists.toList.zipIdx
  refine ⟨hsize, hmem.trans ?_⟩
  simp only [List.mem_zipIdx_iff_getElem?, Array.getElem?_toList, neighbours,
    Array.getD_eq_getD_getElem?]
  constructor
  · rintro ⟨targets, hts, hu, hlt⟩
    rw [hts]
    exact ⟨hu, hlt⟩
  · rintro ⟨hu, hlt⟩
    cases hts : lists[v]? with
    | none => simp [hts] at hu
    | some targets => exact ⟨targets, rfl, by simpa [hts] using hu, hlt⟩

end Graph

end StackDepth
