import Mathlib
import StackDepth.Proofs.Graph.Walk

/-!
# The components in order

The list of components is layered: every component is a set of states that lead to each other, no two
have a state in common, and an edge into a component comes from the component itself or from one further
down the list. So an edge never leads down the list, and the components can be processed from the front,
successors first.

A state that is searched from in the second search was finished later than all states that are left.
What leads to it through states that are left is therefore among those that were finished between its
discovery and its end, and these can be reached from it.

Main statements:

* `Graph.finishingOrder_spec`: the first search;
* `Graph.components_induction`: what every search against the arrows keeps;
* `Graph.layered_components`: the components are layered and contain all states.
-/

namespace StackDepth

namespace Graph

/-- Components such that edges lead towards the front of the list. -/
def Layered (g : Graph) : List (List StateId) → Prop
  | [] => True
  | c :: rest =>
      (c ≠ [] ∧ c.Nodup) ∧
      (∀ u ∈ c, ∀ v ∈ c, Relation.ReflTransGen g.Arrow u v) ∧
      (∀ u ∈ c, u < g.size ∧ ∀ d ∈ rest, u ∉ d) ∧
      (∀ v ∈ c, ∀ u, g.Arrow u v → u ∈ c ∨ ∃ d ∈ rest, u ∈ d) ∧
      Layered g rest

variable {g : Graph}

/-! ### The first search -/

theorem isSeen_replicate (n : Nat) (u : StateId) : IsSeen (Array.replicate n false) u ↔ n ≤ u := by
  rw [IsSeen, Array.getD_eq_getD_getElem?, Array.getElem?_replicate]
  split
  · next h => simp [h]
  · next h => simpa using h

/-- The first search visits all states. -/
theorem finishingOrder_traversal (g : Graph) :
    ∃ seen', Traversal g.adjacency (Array.replicate g.size false) (List.range g.size) seen'
      g.finishingOrder := by
  have hsize : (Array.replicate g.size false).size = g.adjacency.size := by
    rw [Array.size_replicate, size_adjacency]
  obtain ⟨seen', done, htrav, hrun⟩ := Search.run_visits hsize (List.range g.size) []
  have horder : g.finishingOrder = done := by
    rw [finishingOrder]
    rw [List.length_range] at hrun
    rw [Search.fresh, hrun, List.append_nil]
  rw [horder]
  exact ⟨seen', htrav⟩

/-- The first search lists every state once, each followed by states that it leads to and by states
without an arrow to any of these. -/
theorem finishingOrder_spec (g : Graph) :
    (∀ u, u ∈ g.finishingOrder ↔ u < g.size) ∧ Traversal.Ordered g.adjacency g.finishingOrder := by
  obtain ⟨seen', htrav⟩ := g.finishingOrder_traversal
  constructor
  · intro u
    constructor
    · intro hu
      have hnot := htrav.not_seen_of_mem hu
      rw [isSeen_replicate] at hnot
      exact Nat.lt_of_not_le hnot
    · intro hu
      have hseen := htrav.list_seen (List.mem_range.mpr hu)
      rw [htrav.seen_iff, isSeen_replicate] at hseen
      exact hseen.resolve_left (Nat.not_le_of_lt hu)
  · have hempty : Traversal.Ordered g.adjacency [] := by
      intro before x behind heq
      simp at heq
    have hordered := htrav.ordered hempty fun b hb => absurd hb List.not_mem_nil
    rwa [List.append_nil] at hordered

/-! ### The second search -/

/-- The arrows turned around. -/
def backward (g : Graph) : Array (List StateId) := reverseLists g.adjacency

theorem size_backward (g : Graph) : g.backward.size = g.size :=
  (mem_neighbours_reverseLists g.adjacency 0 0).1.trans g.size_adjacency

theorem mem_neighbours_backward (hg : g.WellFormed) (u v : StateId) :
    v ∈ neighbours g.backward u ↔ g.Arrow v u := by
  rw [backward, (mem_neighbours_reverseLists g.adjacency u v).2, mem_neighbours_adjacency hg,
    size_adjacency]
  refine ⟨fun h => h.1, fun h => ⟨h, ?_⟩⟩
  obtain ⟨k, hk⟩ := h
  exact hg.target_lt _ hk

/-- What leads to `x` through states that are left can be reached from `x`, if the states that were
finished later than `x` are not left. -/
theorem reached_of_ordered (hg : g.WellFormed) {before behind : List StateId} {x y : StateId}
    {seen : Array Bool} (horder : g.finishingOrder = before ++ x :: behind)
    (hbefore : ∀ u ∈ before, IsSeen seen u)
    (hpath : Relation.ReflTransGen (Traversal.FreshStep g.backward seen) x y) :
    Relation.ReflTransGen g.Arrow x y ∧ Relation.ReflTransGen g.Arrow y x := by
  obtain ⟨hmem, hordered⟩ := finishingOrder_spec g
  obtain ⟨below, older, hbehind, hbelow, holder⟩ := hordered before x behind horder
  have hplace : y = x ∨ y ∈ below := by
    induction hpath with
    | refl => exact .inl rfl
    | tail _ hstep ih =>
      obtain ⟨harrow, hnew⟩ := hstep
      rw [mem_neighbours_backward hg] at harrow
      have hlisted : _ ∈ g.finishingOrder := (hmem _).mpr (hg.source_lt _ harrow.choose_spec)
      rw [horder, hbehind] at hlisted
      rcases List.mem_append.mp hlisted with h | h
      · exact absurd (hbefore _ h) hnew
      · rcases List.mem_cons.mp h with h | h
        · exact .inl h
        · rcases List.mem_append.mp h with h | h
          · exact .inr h
          · obtain ⟨hne, hnot⟩ := holder _ h _ ((mem_neighbours_adjacency hg _ _).mpr harrow)
            exact (ih.elim hne hnot).elim
  constructor
  · rcases hplace with rfl | hy
    · exact .refl
    · exact Relation.ReflTransGen.mono
        (fun u v h => (mem_neighbours_adjacency hg u v).mp h) _ _ (hbelow y hy)
  · clear hplace
    induction hpath with
    | refl => exact .refl
    | tail _ hstep ih => exact .head ((mem_neighbours_backward hg _ _).mp hstep.1) ih

/-- The components found so far: they are layered, and what is seen is what they contain. -/
structure Sorted (g : Graph) (seen : Array Bool) (comps : List (List StateId)) : Prop where
  /-- Every node has a flag. -/
  size_eq : seen.size = g.size
  /-- The components are layered. -/
  layered : g.Layered comps
  /-- A node is seen if it is in a component. -/
  seen_iff : ∀ u < g.size, IsSeen seen u ↔ ∃ c ∈ comps, u ∈ c

/-- Nothing has been found. -/
theorem Sorted.init (g : Graph) : g.Sorted (Array.replicate g.size false) [] := by
  refine ⟨Array.size_replicate, trivial, fun u hu => ?_⟩
  rw [isSeen_replicate]
  simpa using hu

/-- One search adds what it visits as a component, if it visits anything. -/
theorem addComponent_cases {adj : Array (List StateId)} {seen : Array Bool} (hsize : seen.size = adj.size)
    (comps : List (List StateId)) (x : StateId) :
    ∃ seen' found, Traversal adj seen [x] seen' found ∧
      ((found = [] ∧ addComponent adj (Search.fuelFor adj 1) (seen, comps) x = (seen', comps)) ∨
        (found ≠ [] ∧ addComponent adj (Search.fuelFor adj 1) (seen, comps) x =
          (seen', found.mergeSort (· ≤ ·) :: comps))) := by
  obtain ⟨seen', found, htrav, hrun⟩ := Search.run_visits hsize [x] []
  rw [List.append_nil] at hrun
  refine ⟨seen', found, htrav, ?_⟩
  simp only [addComponent]
  rw [show Search.run adj (Search.fuelFor adj 1) [.visit x] { seen } = ⟨seen', found⟩ from hrun]
  cases found with
  | nil => exact .inl ⟨rfl, rfl⟩
  | cons r found => exact .inr ⟨List.cons_ne_nil r found, rfl⟩

/-- One search against the arrows adds the component of its first state. -/
theorem Sorted.addComponent (hg : g.WellFormed) {before behind : List StateId} {x : StateId}
    (horder : g.finishingOrder = before ++ x :: behind) {seen seen' : Array Bool}
    {comps comps' : List (List StateId)} (hs : g.Sorted seen comps)
    (hbefore : ∀ u ∈ before, IsSeen seen u)
    (h : Graph.addComponent g.backward (Search.fuelFor g.backward 1) (seen, comps) x =
      (seen', comps')) :
    g.Sorted seen' comps' ∧ ∀ u ∈ before ++ [x], IsSeen seen' u := by
  have hsize : seen.size = g.backward.size := by rw [hs.size_eq, size_backward]
  obtain ⟨seen₁, found, htrav, hcases⟩ := addComponent_cases hsize comps x
  have hprocessed : ∀ u ∈ before ++ [x], IsSeen seen₁ u := by
    intro u hu
    rcases List.mem_append.mp hu with hu | hu
    · exact (htrav.seen_iff u).mpr (.inl (hbefore u hu))
    · exact htrav.list_seen hu
  have hlt : ∀ u ∈ found, u < g.size := by
    intro u hu
    rw [← hs.size_eq]
    exact lt_of_not_isSeen (htrav.not_seen_of_mem hu)
  have hpath : ∀ u ∈ found, Relation.ReflTransGen g.Arrow x u ∧ Relation.ReflTransGen g.Arrow u x := by
    intro u hu
    obtain ⟨v, hv, -, hreach⟩ := htrav.reached hu
    rw [List.mem_singleton.mp hv] at hreach
    exact reached_of_ordered hg horder hbefore hreach
  have hsorted : ∀ u, u ∈ found.mergeSort (· ≤ ·) ↔ u ∈ found := fun u => List.mem_mergeSort
  rcases hcases with ⟨rfl, hadd⟩ | ⟨hne, hadd⟩
  · obtain ⟨rfl, rfl⟩ := Prod.mk.inj (hadd.symm.trans h)
    refine ⟨⟨htrav.size_eq.trans hs.size_eq, hs.layered, fun u hu => ?_⟩, hprocessed⟩
    rw [htrav.seen_iff, hs.seen_iff u hu]
    simp
  · obtain ⟨rfl, rfl⟩ := Prod.mk.inj (hadd.symm.trans h)
    refine ⟨⟨htrav.size_eq.trans hs.size_eq, ⟨⟨?_, ?_⟩, ?_, ?_, ?_, hs.layered⟩, fun u hu => ?_⟩,
      hprocessed⟩
    · intro hnil
      refine hne (List.eq_nil_iff_forall_not_mem.mpr fun u hu => ?_)
      rw [← hsorted, hnil] at hu
      exact absurd hu List.not_mem_nil
    · exact (List.mergeSort_perm found (· ≤ ·)).nodup_iff.mpr htrav.nodup
    · intro u hu v hv
      rw [hsorted] at hu hv
      exact (hpath u hu).2.trans (hpath v hv).1
    · intro u hu
      rw [hsorted] at hu
      refine ⟨hlt u hu, fun d hd hmem => htrav.not_seen_of_mem hu ?_⟩
      exact (hs.seen_iff u (hlt u hu)).mpr ⟨d, hd, hmem⟩
    · intro v hv u harrow
      rw [hsorted] at hv
      have hseen := htrav.neighbours_seen hv ((mem_neighbours_backward hg v u).mpr harrow)
      rw [htrav.seen_iff, hs.seen_iff u (hg.source_lt _ harrow.choose_spec)] at hseen
      rw [hsorted]
      exact hseen.symm
    · rw [htrav.seen_iff, hs.seen_iff u hu]
      simp only [List.mem_cons, exists_eq_or_imp, hsorted]
      exact or_comm

/-- What every search against the arrows keeps holds of all components. The states are searched from in
the order of finishing; `before` are those that have been. -/
theorem components_induction (g : Graph) {P : List StateId → Array Bool → List (List StateId) → Prop}
    (hstart : P [] (Array.replicate g.size false) [])
    (hstep : ∀ before x behind seen comps, g.finishingOrder = before ++ x :: behind → P before seen comps →
      P (before ++ [x]) (addComponent g.backward (Search.fuelFor g.backward 1) (seen, comps) x).1
        (addComponent g.backward (Search.fuelFor g.backward 1) (seen, comps) x).2) :
    ∃ seen, P g.finishingOrder seen g.components := by
  have hfold : ∀ (behind before : List StateId) (p : Array Bool × List (List StateId)),
      g.finishingOrder = before ++ behind → P before p.1 p.2 →
      P g.finishingOrder (behind.foldl (addComponent g.backward (Search.fuelFor g.backward 1)) p).1
        (behind.foldl (addComponent g.backward (Search.fuelFor g.backward 1)) p).2 := by
    intro behind
    induction behind with
    | nil =>
      intro before p horder hp
      rwa [horder, List.append_nil]
    | cons x behind ih =>
      intro before p horder hp
      exact ih (before ++ [x]) _ (by rw [horder, List.append_assoc]; rfl) (hstep before x behind _ _ horder hp)
  exact ⟨_, hfold g.finishingOrder [] (Array.replicate g.size false, []) rfl hstart⟩

/-- What is known when the states of `before` have been searched from. -/
def SortedUpTo (g : Graph) (before : List StateId) (seen : Array Bool) (comps : List (List StateId)) : Prop :=
  g.Sorted seen comps ∧ ∀ u ∈ before, IsSeen seen u

theorem SortedUpTo.init (g : Graph) : g.SortedUpTo [] (Array.replicate g.size false) [] :=
  ⟨.init g, fun _ hu => absurd hu List.not_mem_nil⟩

/-- The components are layered and contain all states. -/
theorem layered_components (hg : g.WellFormed) :
    g.Layered g.components ∧ ∀ u < g.size, ∃ c ∈ g.components, u ∈ c := by
  obtain ⟨seen, hs, hall⟩ := g.components_induction (.init g)
    fun before x behind seen comps horder (h : g.SortedUpTo before seen comps) =>
      h.1.addComponent hg horder h.2 rfl
  refine ⟨hs.layered, fun u hu => (hs.seen_iff u hu).mp (hall u ?_)⟩
  exact ((finishingOrder_spec g).1 u).mpr hu

end Graph

end StackDepth
