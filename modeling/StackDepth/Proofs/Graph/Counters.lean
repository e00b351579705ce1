import Mathlib
import StackDepth.Proofs.Graph.WellFormed

/-!
# The counters of a graph

Four counters run along with a graph, so that they can be read without a walk through its nodes. Each is
changed in the operation that changes what it counts, and in no other.

* `Graph.tally`: the number of states about which something is recorded;
* `Graph.tally_eq_of_iff`, `Graph.tally_eq_succ`: how it changes when a node changes;
* `Graph.Counted`: the counters agree with the graph, and every operation keeps it so.
-/

namespace StackDepth

namespace Graph

/-- The number of states whose nodes have a property. -/
def tally (g : Graph) (P : Node → Prop) [DecidablePred P] : Nat :=
  ((Finset.range g.size).filter fun id => P (g.node id)).card

section Tally

variable {g g' : Graph} {P : Node → Prop} [DecidablePred P]

/-- New nodes have nothing recorded, so the number changes only with the nodes that were there. -/
theorem tally_eq_of_iff (hsize : g.nodes.size = g.size) (hle : g.size ≤ g'.size) (hfresh : ¬ P {})
    (hiff : ∀ id, P (g'.node id) ↔ P (g.node id)) : g'.tally P = g.tally P := by
  have hset : (Finset.range g'.size).filter (fun id => P (g'.node id)) =
      (Finset.range g.size).filter fun id => P (g.node id) := by
    ext id
    simp only [Finset.mem_filter, Finset.mem_range, hiff]
    refine ⟨fun h => ⟨?_, h.2⟩, fun h => ⟨h.1.trans_le hle, h.2⟩⟩
    by_contra hge
    rw [node_eq_default (by omega)] at h
    exact hfresh h.2
  rw [tally, tally, hset]

theorem tally_eq_succ {i : StateId} (hsize : g'.size = g.size) (hi : i < g.size)
    (hbefore : ¬ P (g.node i)) (hafter : P (g'.node i))
    (hiff : ∀ id, id ≠ i → (P (g'.node id) ↔ P (g.node id))) : g'.tally P = g.tally P + 1 := by
  have hset : (Finset.range g'.size).filter (fun id => P (g'.node id)) =
      insert i ((Finset.range g.size).filter fun id => P (g.node id)) := by
    ext id
    simp only [Finset.mem_filter, Finset.mem_range, Finset.mem_insert, hsize]
    by_cases hid : id = i
    · subst hid
      exact ⟨fun _ => .inl rfl, fun _ => ⟨hi, hafter⟩⟩
    · rw [hiff id hid]
      exact ⟨.inr, fun h => h.resolve_left hid⟩
  have hnew : i ∉ (Finset.range g.size).filter fun id => P (g.node id) :=
    fun h => hbefore (Finset.mem_filter.mp h).2
  rw [tally, tally, hset, Finset.card_insert_of_notMem hnew]

end Tally

/-- The counters agree with what they count. -/
structure Counted (g : Graph) : Prop where
  /-- The number of states. -/
  states : g.stateCount = g.size
  /-- The number of states on the frontier. -/
  waiting : g.frontierCount = g.frontier.length
  /-- The number of explored states. -/
  explored : g.exploredCount = g.tally (fun n => n.explored = true)
  /-- The number of edges. -/
  edges : g.edgeCount = g.edges.size

namespace Counted

variable {g g' : Graph}

/-- Everything that is counted has stayed the same. -/
theorem congr (h : g.Counted) (hcache : g'.size = g.size) (hstates : g'.stateCount = g.stateCount)
    (hfrontier : g'.frontier = g.frontier) (hwaiting : g'.frontierCount = g.frontierCount)
    (hnodes : ∀ id, (g'.node id).explored = (g.node id).explored)
    (hexplored : g'.exploredCount = g.exploredCount) (hedges : g'.edges = g.edges)
    (hcount : g'.edgeCount = g.edgeCount) : g'.Counted where
  states := by rw [hstates, hcache, h.states]
  waiting := by rw [hwaiting, hfrontier, h.waiting]
  explored := by
    rw [hexplored, h.explored, tally, tally, hcache]
    simp only [hnodes]
  edges := by rw [hcount, hedges, h.edges]

theorem intern (h : g.Counted) (hg : g.WellFormed) (s : State) : (g.intern s).1.Counted := by
  have htally := tally_eq_of_iff (P := fun n => n.explored = true) hg.nodes_size
    (size_intern_le g s) Bool.false_ne_true fun id => by rw [node_intern]
  refine ⟨?_, ?_, ?_, ?_⟩
  · unfold Graph.intern
    split
    · exact h.states
    · simp only [size, Cache.size_push]
      exact congrArg (· + 1) h.states
  · rw [frontier_intern, ← h.waiting]
    unfold Graph.intern
    split <;> rfl
  · rw [htally, ← h.explored]
    unfold Graph.intern
    split <;> rfl
  · rw [edges_intern, ← h.edges]
    unfold Graph.intern
    split <;> rfl

theorem link (h : g.Counted) (hg : g.WellFormed) {a : Edge} (hs : a.source < g.size)
    (ht : a.target < g.size) : (g.link a).Counted where
  states := h.states
  waiting := h.waiting
  explored := by
    have hmarks := sameMarks_link (g := g) (a := a) (hg.nodes_size ▸ hs) (hg.nodes_size ▸ ht)
    have htally : (g.link a).tally (fun n => n.explored = true) =
        g.tally fun n => n.explored = true :=
      tally_eq_of_iff hg.nodes_size le_rfl Bool.false_ne_true fun id => by rw [(hmarks id).2.1]
    rw [htally, ← h.explored]
    rfl
  edges := by
    rw [edges_link, Array.size_push, ← h.edges]
    rfl

theorem pushFrontier (h : g.Counted) (hg : g.WellFormed) (id : StateId) :
    (g.pushFrontier id).Counted := by
  have hshape := sameShape_pushFrontier g id
  have hmarks := sameMarks_pushFrontier g id
  have htally := tally_eq_of_iff (P := fun n => n.explored = true) hg.nodes_size hshape.size_eq.ge
    Bool.false_ne_true fun j => by rw [(hmarks j).2.1]
  refine ⟨?_, ?_, ?_, ?_⟩
  · rw [hshape.size_eq, ← h.states]
    unfold Graph.pushFrontier
    split <;> rfl
  · unfold Graph.pushFrontier
    split
    · exact h.waiting
    · rw [List.length_cons, h.waiting]
  · rw [htally, ← h.explored]
    unfold Graph.pushFrontier
    split <;> rfl
  · rw [hshape.edges_eq, ← h.edges]
    unfold Graph.pushFrontier
    split <;> rfl

/-- A state that leaves the frontier is counted there no longer. -/
theorem dropFrontier (h : g.Counted) (id : StateId) : (g.dropFrontier id).Counted where
  states := h.states
  waiting := by
    rw [Graph.dropFrontier, List.length_tail, h.waiting]
  explored := by
    rw [tally, (sameShape_dropFrontier g id).size_eq]
    simp only [explored_dropFrontier]
    exact h.explored
  edges := h.edges

/-- A state is counted as explored once. -/
theorem markExplored (h : g.Counted) (hg : g.WellFormed) {id : StateId} (hid : id < g.size) :
    (g.markExplored id).Counted := by
  cases hexp : (g.node id).explored with
  | true =>
    rw [markExplored_of_explored hexp]
    exact h
  | false =>
    have hnode := node_markExplored (hg.nodes_size ▸ hid) hexp
    have hshape := sameShape_markExplored g id
    have htally : (g.markExplored id).tally (fun n => n.explored = true) =
        g.tally (fun n => n.explored = true) + 1 := by
      refine tally_eq_succ hshape.size_eq hid (by simp [hexp]) ?_ fun j hj => ?_
      · rw [hnode, if_pos rfl]
      · rw [hnode, if_neg hj]
    have hcounts : (g.markExplored id).stateCount = g.stateCount ∧
        (g.markExplored id).frontierCount = g.frontierCount ∧
        (g.markExplored id).exploredCount = g.exploredCount + 1 ∧
        (g.markExplored id).edgeCount = g.edgeCount := by
      rw [Graph.markExplored, if_neg (by simp [hexp])]
      exact ⟨rfl, rfl, rfl, rfl⟩
    refine ⟨?_, ?_, ?_, ?_⟩
    · rw [hcounts.1, hshape.size_eq, h.states]
    · rw [hcounts.2.1, frontier_markExplored, h.waiting]
    · rw [hcounts.2.2.1, htally, h.explored]
    · rw [hcounts.2.2.2, hshape.edges_eq, h.edges]

theorem begin (h : g.Counted) (hg : g.WellFormed) (hf : g.FrontierInOrder) {id : StateId}
    {rest : List StateId} (hfront : g.frontier = id :: rest) : (g.begin id).Counted := by
  have hwait := hf.waiting id (hfront ▸ List.mem_cons_self)
  have hshape := sameShape_dropFrontier g id
  exact (h.dropFrontier id).markExplored (hshape.wellFormed hg) (hshape.size_eq ▸ hwait.1)

theorem setKind (h : g.Counted) {id : StateId} (hid : id < g.nodes.size) (k : StateKind) :
    (g.setKind id k).Counted := by
  refine h.congr rfl rfl rfl rfl (fun j => ?_) rfl rfl rfl
  rw [node_setKind hid]
  split <;> rfl

theorem setReturns (h : g.Counted) {id : StateId} (hid : id < g.nodes.size) (s : ReturnSet) :
    (g.setReturns id s).Counted := by
  refine h.congr rfl rfl rfl rfl (fun j => ?_) rfl rfl rfl
  rw [node_setReturns hid]
  split <;> rfl

end Counted

theorem counted_start (s : State) : (start s).Counted := by
  have hempty : ({} : Graph).Counted := ⟨rfl, rfl, rfl, rfl⟩
  have hseed : (seed s).Counted :=
    (hempty.intern wellFormed_empty s).congr rfl rfl rfl rfl (fun _ => rfl) rfl rfl rfl
  exact hseed.pushFrontier (wellFormed_seed s) (seed s).eden

/-- The states are those that wait and those that are explored. -/
theorem Counted.size_eq {g : Graph} (h : g.Counted) (hf : g.FrontierInOrder) (hc : g.Covered) :
    g.size = g.frontierCount + g.exploredCount := by
  have hset : (Finset.range g.size).filter (fun id => ¬ (g.node id).explored = true) =
      g.frontier.toFinset := by
    ext id
    rw [Finset.mem_filter, Finset.mem_range, List.mem_toFinset]
    refine ⟨fun hid => (hc id hid.1).resolve_left hid.2, fun hid => ?_⟩
    obtain ⟨hlt, hexp⟩ := hf.waiting id hid
    exact ⟨hlt, by simp [hexp]⟩
  have hsplit := Finset.card_filter_add_card_filter_not (s := Finset.range g.size)
    fun id => (g.node id).explored = true
  rw [hset, List.toFinset_card_of_nodup hf.nodup, Finset.card_range] at hsplit
  rw [h.waiting, h.explored, tally]
  exact hsplit.symm.trans (Nat.add_comm _ _)

end Graph

end StackDepth
