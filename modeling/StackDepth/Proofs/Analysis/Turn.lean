import Mathlib
import StackDepth.Proofs.Analysis.Bookkeeping
import StackDepth.Proofs.Analysis.Build

/-!
# Turns of the loop

One turn of building explores the latest state of the frontier or serves the latest entry of a queue.
Whatever comes of it, the books are balanced when it ends. A state is taken once, since it is explored
from then on, and the edges that a turn queues are the ones it has added.

* `Exploration.Turned`: what a turn takes and queues;
* `Building.step_turned`: every step is a turn, unless it is cancelled before one;
* `Building.Boundary.balanced`, `Building.run_balanced`: the books are balanced throughout.
-/

namespace StackDepth

namespace Exploration

/-- What a turn of the loop takes from the frontier and puts in the queues. -/
structure Turn where
  /-- The state that is taken from the frontier. -/
  taken : Option StateId
  /-- The return states that begin to wait. -/
  returns : List StateId
  /-- The edges that begin to wait. -/
  edges : List EdgeId

/-- The return states that a turn leaves alone: it serves one of them when no state waits on the
frontier. -/
def keptReturns (x : Exploration) : List StateId :=
  if x.graph.frontier = [] then x.newReturns.tail else x.newReturns

/-- The edges that a turn leaves alone: it serves one of them when nothing else waits. -/
def keptEdges (x : Exploration) : List EdgeId :=
  if x.graph.frontier = [] ∧ x.newReturns = [] then x.newEdges.tail else x.newEdges

/-- One turn of the loop leads from `x` to `y`. The state that is taken is explored for the first time,
only it is queued as a return state, and only new edges are queued. -/
structure Turned (x : Exploration) (t : Turn) (y : Exploration) : Prop where
  /-- What waits agrees with the marks and the counters. -/
  balanced : y.Balanced
  /-- The latest state of the frontier is taken, if there is any. -/
  taken_eq : t.taken = x.graph.frontier.head?
  /-- It was not explored before. -/
  taken_fresh : ∀ id, t.taken = some id → (x.graph.node id).explored = false
  /-- It is the only state that gets explored. -/
  explored_iff : ∀ id, (y.graph.node id).explored = true ↔
    t.taken = some id ∨ (x.graph.node id).explored = true
  /-- Return states begin to wait in front of those that are kept. -/
  newReturns_eq : y.newReturns = t.returns ++ x.keptReturns
  /-- Only the state that is taken can begin to wait. -/
  returns_taken : t.returns = [] ∨ ∃ id, t.taken = some id ∧ t.returns = [id]
  /-- Edges begin to wait in front of those that are kept. -/
  newEdges_eq : y.newEdges = t.edges ++ x.keptEdges
  /-- No edge begins to wait twice. -/
  edges_nodup : t.edges.Nodup
  /-- Only new edges begin to wait. -/
  edges_new : ∀ e ∈ t.edges, x.graph.edges.size ≤ e ∧ e < y.graph.edges.size
  /-- No edge is lost. -/
  edges_size_le : x.graph.edges.size ≤ y.graph.edges.size

theorem Turned.note {x y : Exploration} {t : Turn} (h : Turned x t y) (e : Event) :
    Turned x t (y.note e) :=
  ⟨h.balanced.note e, h.taken_eq, h.taken_fresh, h.explored_iff, h.newReturns_eq, h.returns_taken,
    h.newEdges_eq, h.edges_nodup, h.edges_new, h.edges_size_le⟩

theorem explored_markReturn (x : Exploration) (id : StateId) (k : StateKind) (j : StateId) :
    ((x.markReturn id k).graph.node j).explored = (x.graph.node j).explored :=
  x.graph.explored_setKind id k j

/-- The state that a turn has taken may be marked as a return state at its end. -/
theorem Turned.markReturn {x y : Exploration} {id : StateId} {es : List EdgeId}
    (h : Turned x ⟨some id, [], es⟩ y) (hfresh : (y.graph.node id).kind = .normal) {k : StateKind}
    (hk : k ≠ .normal) : Turned x ⟨some id, [id], es⟩ (y.markReturn id k) where
  balanced := h.balanced.markReturn ((h.explored_iff id).mpr (.inl rfl)) hfresh hk
  taken_eq := h.taken_eq
  taken_fresh := h.taken_fresh
  explored_iff j := by
    rw [explored_markReturn]
    exact h.explored_iff j
  newReturns_eq := congrArg (id :: ·) h.newReturns_eq
  returns_taken := .inr ⟨id, rfl, rfl⟩
  newEdges_eq := h.newEdges_eq
  edges_nodup := h.edges_nodup
  edges_new := h.edges_new
  edges_size_le := h.edges_size_le

/-- A turn that explores the latest state of the frontier. -/
theorem Balanced.turned_explore {x : Exploration} (hx : x.Balanced) {id : StateId}
    {rest : List StateId} (hfront : x.graph.frontier = id :: rest) {y z : Exploration}
    (hz : Continues ({ x with graph := x.graph.begin id } : Exploration) z)
    (hy : y = z ∨ ∃ k, k ≠ .normal ∧ y = z.markReturn id k) : ∃ t, Turned x t y := by
  have hwait := hx.frontier.waiting id (hfront ▸ List.mem_cons_self)
  have hnode := Graph.node_begin (hx.wellFormed.nodes_size ▸ hwait.1) hwait.2
  have hedges : (x.graph.begin id).edges = x.graph.edges := (x.graph.sameShape_begin id).edges_eq
  obtain ⟨es, hes, hnodup, hnew⟩ := hz.newEdges_eq
  have hturned : Turned x ⟨some id, [], es⟩ z :=
    { balanced := hz.balanced
      taken_eq := by rw [hfront, List.head?_cons]
      taken_fresh := fun j hj => Option.some.inj hj ▸ hwait.2
      explored_iff := fun j => by
        rw [hz.explored_eq, hnode]
        by_cases hj : j = id
        · simp [hj]
        · simp [hj, Ne.symm hj]
      newReturns_eq := by
        rw [hz.newReturns_eq, keptReturns, if_neg (by simp [hfront])]
        rfl
      returns_taken := .inl rfl
      newEdges_eq := by
        rw [hes, keptEdges, if_neg (by simp [hfront])]
      edges_nodup := hnodup
      edges_new := fun e he => hedges ▸ hnew e he
      edges_size_le := hedges ▸ hz.grows.edges_size_le }
  rcases hy with rfl | ⟨k, hk, rfl⟩
  · exact ⟨_, hturned⟩
  · refine ⟨_, hturned.markReturn ?_ hk⟩
    rw [hz.kind_eq, Graph.kind_begin]
    by_contra hmark
    exact absurd (hx.marked id hmark) (by simp [hwait.2])

/-- A turn that serves a queue: `x₁` is what is left when the entry has been taken. -/
theorem Continues.turned {x x₁ y : Exploration} (h : Continues x₁ y)
    (hfront : x.graph.frontier = []) (hgraph : x₁.graph = x.graph)
    (hreturns : x₁.newReturns = x.keptReturns) (hedges : x₁.newEdges = x.keptEdges) :
    ∃ t, Turned x t y := by
  obtain ⟨es, hes, hnodup, hnew⟩ := h.newEdges_eq
  refine ⟨⟨none, [], es⟩, h.balanced, by rw [hfront]; rfl, by simp, fun id => ?_, ?_, .inl rfl, ?_,
    hnodup, hgraph ▸ hnew, hgraph ▸ h.grows.edges_size_le⟩
  · rw [h.explored_eq, hgraph]
    simp
  · rw [h.newReturns_eq, hreturns]
    rfl
  · rw [hes, hedges]

/-- The entry that a turn takes from a queue is counted no longer. -/
theorem Balanced.serve {x : Exploration} (hx : x.Balanced) {rs : List StateId} {es : List EdgeId}
    (hrs : rs.Sublist x.newReturns) (hes : es.Sublist x.newEdges) {m n : Nat} (hm : m = rs.length)
    (hn : n = es.length) :
    ({ x with newReturns := rs, newEdges := es, pendingReturns := m, pendingEdges := n } :
      Exploration).Balanced where
  wellFormed := hx.wellFormed
  frontier := hx.frontier
  covered := hx.covered
  counted := hx.counted
  marked := hx.marked
  newEdges_nodup := hx.newEdges_nodup.sublist hes
  newEdges_explored e he := hx.newEdges_explored e (hes.subset he)
  newReturns_nodup := hx.newReturns_nodup.sublist hrs
  newReturns_marked r hr := hx.newReturns_marked r (hrs.subset hr)
  pendingReturns := hm
  pendingEdges := hn
  retCount := hx.retCount
  retiCount := hx.retiCount

/-- Serving a queue, whether it succeeds or not, goes on from what is left when the entry has been
taken. -/
theorem Balanced.continues_propagateNext {x : Exploration} (hx : x.Balanced) (code : Code)
    (hfront : x.graph.frontier = []) :
    ∃ x₁, Continues x₁ (x.propagateNext code).1 ∧ x₁.graph = x.graph ∧
      x₁.newReturns = x.keptReturns ∧ x₁.newEdges = x.keptEdges := by
  unfold Exploration.propagateNext
  split
  · next id rest hqueue =>
    have hpending : x.pendingReturns - 1 = rest.length := by
      rw [hx.pendingReturns, hqueue, List.length_cons, Nat.add_sub_cancel]
    have hrest := hx.serve (hqueue ▸ List.sublist_cons_self id rest) (List.Sublist.refl _) hpending
      hx.pendingEdges
    have hid : id < x.graph.size :=
      hx.lt_of_explored (hx.newReturns_marked id (hqueue ▸ List.mem_cons_self)).1
    have hnoted := hrest.continues_note (.propagatingReturn id)
    refine ⟨_, hnoted.trans (hnoted.balanced.propagate code hid [id]), rfl, ?_, ?_⟩
    · rw [keptReturns, if_pos hfront, hqueue, List.tail_cons]
    · rw [keptEdges, if_neg (by simp [hqueue])]
  · next e rest hreturns hqueue =>
    have hpending : x.pendingEdges - 1 = rest.length := by
      rw [hx.pendingEdges, hqueue, List.length_cons, Nat.add_sub_cancel]
    have hrest := hx.serve (List.Sublist.refl _) (hqueue ▸ List.sublist_cons_self e rest)
      hx.pendingReturns hpending
    have he : e < x.graph.edges.size := (hx.newEdges_explored e (hqueue ▸ List.mem_cons_self)).1
    refine ⟨_, hrest.propagateEdge code he, rfl, ?_, ?_⟩
    · rw [keptReturns, if_pos hfront, hreturns, List.tail_nil]
    · rw [keptEdges, if_pos ⟨hfront, hreturns⟩, hqueue, List.tail_cons]
  · next hreturns hedges =>
    refine ⟨_, hx.continues, rfl, ?_, ?_⟩
    · rw [keptReturns, if_pos hfront, hreturns, List.tail_nil]
    · rw [keptEdges, if_pos ⟨hfront, hreturns⟩, hedges, List.tail_nil]

/-- A turn that serves a queue, whether it succeeds or not. -/
theorem Balanced.turned_propagateNext {x : Exploration} (hx : x.Balanced) (code : Code)
    (hfront : x.graph.frontier = []) : ∃ t, Turned x t (x.propagateNext code).1 := by
  obtain ⟨x₁, hcont, hgraph, hreturns, hedges⟩ := hx.continues_propagateNext code hfront
  exact hcont.turned hfront hgraph hreturns hedges

/-- Whatever comes of it, a turn of the loop is one. -/
theorem Balanced.turned_turn {x : Exploration} (hx : x.Balanced) (code : Code) (vectors : Int) :
    ∃ t, Turned x t (x.turn code vectors).1 := by
  cases hfront : x.graph.frontier with
  | cons id rest =>
    rw [turn_of_cons hfront]
    obtain ⟨z, hz, hy⟩ := hx.explore code vectors hfront rfl
    exact hx.turned_explore hfront hz hy
  | nil =>
    rw [turn_of_nil hfront]
    split
    · next hempty =>
      have hnil : x.newReturns = [] ∧ x.newEdges = [] := by
        simpa using hempty
      refine hx.continues.turned hfront rfl ?_ ?_
      · rw [keptReturns, if_pos hfront, hnil.1, List.tail_nil]
      · rw [keptEdges, if_pos ⟨hfront, hnil.1⟩, hnil.2, List.tail_nil]
    · exact hx.turned_propagateNext code hfront

end Exploration

namespace Building

open Exploration

variable {code : Code} {limits : Limits} {around : Surroundings}

/-- Every step is a turn, or it is cancelled before one. -/
theorem step_turned {b b' : Building} {v : Verdict} (hb : b.work.Balanced)
    (h : b.step code limits around = (b', v)) :
    (∃ t, Turned b.work t b'.work) ∨
      ¬ Unlimited limits around ∧ v = .ended .stopped ∧ ∃ e, b'.work = b.work.note e := by
  obtain ⟨t, hturned⟩ := hb.turned_turn code limits.vectors
  rcases step_cases h with hturn | ⟨hlimited, e, ⟨-, -, heq⟩ | ⟨hstopped, heq⟩⟩
  · rw [← hturn] at hturned
    exact .inl ⟨t, hturned⟩
  · rw [heq]
    exact .inl ⟨t, hturned.note e⟩
  · exact .inr ⟨hlimited, hstopped, e, heq⟩

theorem step_balanced {b b' : Building} {v : Verdict} (hb : b.work.Balanced)
    (h : b.step code limits around = (b', v)) : b'.work.Balanced := by
  rcases step_turned hb h with ⟨t, hturned⟩ | ⟨-, -, e, heq⟩
  · exact hturned.balanced
  · rw [heq]
    exact hb.note e

/-- Building at the beginning of a turn. -/
inductive Boundary (code : Code) (limits : Limits) (around : Surroundings) (start : State) :
    Building → Prop where
  | start (h : around.isCancelled 0 = false) :
      Boundary code limits around start { work := .start start, polls := 1 }
  | next {b b' : Building} (hb : Boundary code limits around start b)
      (h : b.step code limits around = (b', .goOn)) : Boundary code limits around start b'

theorem Boundary.balanced {start : State} {b : Building} (h : Boundary code limits around start b) :
    b.work.Balanced := by
  induction h with
  | start => exact balanced_start start
  | next _ hstep ih => exact step_balanced ih hstep

theorem run_balanced (start : State) : (run code limits around start).1.work.Balanced :=
  run_keeps (P := fun b => b.work.Balanced) (balanced_start start) step_balanced

end Building

end StackDepth
