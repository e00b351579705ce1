import Mathlib
import StackDepth.Proofs.Analysis.Summary
import StackDepth.Proofs.Graph.ReturnSet
import StackDepth.Proofs.Graph.WellFormed

/-!
# What an exploration keeps

Everything the analysis does to the graph besides marking states is to add edges. Adding an edge keeps
the graph in order, leaves all marks alone, and queues the edge unless its target has still to be
explored. A graph is consistent if it records nothing but derivable facts.

Main statements:

* `Exploration.extends_addEdge`: what adding an edge changes;
* `Graph.Consistent.joined`: adding a derivable edge keeps a graph consistent;
* `Exploration.explore_spec`: exploring a state adds the transitions it has by itself.
-/

namespace StackDepth

/-! ### Adding an edge -/

/-- A graph that has gained at most one edge, from `src` to `t`, and at most one state, `t`. -/
structure Graph.Joined (g g' : Graph) (src : StateId) (kind : EdgeKind) (t : StateId) : Prop where
  /-- The graph is well-formed. -/
  wellFormed : g'.WellFormed
  /-- The frontier is in order. -/
  frontier : g'.FrontierInOrder
  /-- States and edges keep their numbers. -/
  grows : Graph.Grows g g'
  /-- Nothing else is recorded about a state. -/
  marks : Graph.SameMarks g g'
  /-- The edge is there. -/
  mem_edges : ⟨src, t, kind⟩ ∈ g'.edges
  /-- No other edge is new. -/
  eq_of_mem : ∀ a ∈ g'.edges, a ∈ g.edges ∨ a = ⟨src, t, kind⟩
  /-- No other state is new. -/
  eq_of_lt : ∀ id < g'.size, id < g.size ∨ id = t
  /-- Every state is still explored or waits. -/
  covered : g.Covered → g'.Covered

namespace Exploration

/-- An exploration with more edges: a new edge is queued, or its target has still to be explored. -/
structure Extends (x x' : Exploration) : Prop where
  /-- States and edges keep their numbers. -/
  grows : Graph.Grows x.graph x'.graph
  /-- Nothing else is recorded about a state. -/
  marks : Graph.SameMarks x.graph x'.graph
  /-- The same return states wait. -/
  newReturns_eq : x'.newReturns = x.newReturns
  /-- Waiting edges still wait. -/
  newEdges_sub : ∀ e ∈ x.newEdges, e ∈ x'.newEdges
  /-- Only edges of the graph begin to wait. -/
  newEdges_lt : ∀ e ∈ x'.newEdges, e ∈ x.newEdges ∨ e < x'.graph.edges.size
  /-- A new edge waits, or its target is not explored. -/
  queued : ∀ (e : EdgeId) (a : Edge), x'.graph.edges[e]? = some a →
    x.graph.edges[e]? = some a ∨ e ∈ x'.newEdges ∨ (x'.graph.node a.target).explored = false
  /-- An edge begins to wait when it is added. -/
  count_le : x'.newEdges.length + x.graph.edges.size ≤ x.newEdges.length + x'.graph.edges.size

theorem Extends.refl (x : Exploration) : Extends x x :=
  ⟨.refl _, .refl _, rfl, fun _ h => h, fun _ h => .inl h, fun _ _ h => .inl h, le_rfl⟩

theorem Extends.trans {x y z : Exploration} (hxy : Extends x y) (hyz : Extends y z) :
    Extends x z where
  grows := hxy.grows.trans hyz.grows
  marks := hxy.marks.trans hyz.marks
  newReturns_eq := hyz.newReturns_eq.trans hxy.newReturns_eq
  newEdges_sub e he := hyz.newEdges_sub e (hxy.newEdges_sub e he)
  newEdges_lt e he := by
    rcases hyz.newEdges_lt e he with he | he
    · exact (hxy.newEdges_lt e he).imp_right fun h => h.trans_le hyz.grows.edges_size_le
    · exact .inr he
  queued e a ha := by
    rcases hyz.queued e a ha with ha | ha | ha
    · rcases hxy.queued e a ha with ha | ha | ha
      · exact .inl ha
      · exact .inr (.inl (hyz.newEdges_sub e ha))
      · exact .inr (.inr ((hyz.marks a.target).2.1.trans ha))
    · exact .inr (.inl ha)
    · exact .inr (.inr ha)
  count_le := by
    have hfirst := hxy.count_le
    have hsecond := hyz.count_le
    omega

/-- The three ways in which adding an edge can end. -/
theorem addEdge_cases {x : Exploration} (hg : x.graph.WellFormed) {src : StateId}
    (hsrc : src < x.graph.size) (kind : EdgeKind) (s : State) {g : Graph} {t : StateId} {a : Edge}
    (hintern : x.graph.intern s = (g, t)) (ha : a = ⟨src, t, kind⟩) :
    (x.addEdge src kind s).newReturns = x.newReturns ∧
      (a ∈ g.edges ∧ (x.addEdge src kind s).graph = g ∧
          (x.addEdge src kind s).newEdges = x.newEdges ∨
        a ∉ g.edges ∧ (g.node t).explored = true ∧ (x.addEdge src kind s).graph = g.link a ∧
          (x.addEdge src kind s).newEdges = g.edges.size :: x.newEdges ∨
        a ∉ g.edges ∧ (g.node t).explored = false ∧
          (x.addEdge src kind s).graph = (g.link a).pushFrontier t ∧
          (x.addEdge src kind s).newEdges = x.newEdges) := by
  subst ha
  have hwf : g.WellFormed := by simpa [hintern] using hg.intern s
  have hlt : src < g.size := hsrc.trans_le (by simpa [hintern] using x.graph.size_intern_le s)
  have ht : t < g.size := by simpa [hintern] using (Graph.intern_spec hg s).1
  have hmarks := Graph.sameMarks_link (g := g) (a := ⟨src, t, kind⟩)
    (hwf.nodes_size ▸ hlt) (hwf.nodes_size ▸ ht) t
  simp only [addEdge, hintern, note]
  rcases Graph.addEdge_cases hwf kind hlt ht with ⟨hmem, e, hlink⟩ | ⟨hnew, hlink⟩
  · simp only [hlink]
    exact ⟨trivial, .inl ⟨hmem, trivial, trivial⟩⟩
  · simp only [hlink, schedule, hmarks.2.1]
    cases hexp : (g.node t).explored with
    | true => exact ⟨rfl, .inr (.inl ⟨hnew, rfl, rfl, rfl⟩)⟩
    | false => exact ⟨rfl, .inr (.inr ⟨hnew, rfl, rfl, rfl⟩)⟩

/-- The graph `g` is that of `x` with the state `s` interned as `t`. -/
structure Interned (x : Exploration) (s : State) (g : Graph) (t : StateId) : Prop where
  /-- The graph is well-formed. -/
  wellFormed : g.WellFormed
  /-- The frontier lists the states that wait. -/
  frontier : g.FrontierInOrder
  /-- States and edges are only added. -/
  grows : x.graph.Grows g
  /-- What is recorded of a state stays as it was. -/
  node_eq : ∀ id, g.node id = x.graph.node id
  /-- No edge is added. -/
  edges_eq : g.edges = x.graph.edges
  /-- No state begins to wait. -/
  frontier_eq : g.frontier = x.graph.frontier
  /-- No other state is added. -/
  eq_of_lt : ∀ id < g.size, id < x.graph.size ∨ id = t
  /-- The number that is given belongs to the state. -/
  target : t < g.size ∧ g.state t = s

theorem interned_intern {x : Exploration} (hg : x.graph.WellFormed) (hf : x.graph.FrontierInOrder)
    (s : State) : x.Interned s (x.graph.intern s).1 (x.graph.intern s).2 where
  wellFormed := hg.intern s
  frontier := hf.intern s
  grows := x.graph.grows_intern s
  node_eq := x.graph.node_intern s
  edges_eq := x.graph.edges_intern s
  frontier_eq := x.graph.frontier_intern s
  eq_of_lt _ hid := Graph.lt_size_of_intern hid
  target := Graph.intern_spec hg s

namespace Interned

variable {x y : Exploration} {s : State} {g : Graph} {src t : StateId} {kind : EdgeKind}

theorem marks (h : x.Interned s g t) : x.graph.SameMarks g := by
  intro id
  rw [h.node_eq id]
  exact ⟨rfl, rfl, rfl⟩

/-- A state that was there before is covered as it was. -/
theorem covered (h : x.Interned s g t) (ht : t < x.graph.size) (hc : x.graph.Covered) :
    g.Covered := by
  intro id hid
  rw [h.node_eq, h.frontier_eq]
  rcases h.eq_of_lt id hid with hid | rfl
  · exact hc id hid
  · exact hc id ht

theorem marks_link (h : x.Interned s g t) (hsrc : src < g.size) :
    x.graph.SameMarks (g.link ⟨src, t, kind⟩) := by
  have hsize := h.wellFormed.nodes_size
  exact h.marks.trans (Graph.sameMarks_link (a := ⟨src, t, kind⟩) (hsize ▸ hsrc) (hsize ▸ h.target.1))

theorem mem_edges_link (h : x.Interned s g t) {a : Edge} (ha : a ∈ (g.link ⟨src, t, kind⟩).edges) :
    a ∈ x.graph.edges ∨ a = ⟨src, t, kind⟩ := by
  rwa [Graph.edges_link, h.edges_eq, Array.mem_push] at ha

theorem getElem?_link (h : x.Interned s g t) {e : EdgeId} {a : Edge}
    (ha : (g.link ⟨src, t, kind⟩).edges[e]? = some a) :
    x.graph.edges[e]? = some a ∨ e = g.edges.size ∧ a = ⟨src, t, kind⟩ := by
  rw [Graph.getElem?_link] at ha
  split at ha
  · next he => exact .inr ⟨he, (Option.some.inj ha).symm⟩
  · exact .inl (h.edges_eq ▸ ha)

/-- The edge is there already, and nothing waits anew. -/
theorem joined_of_mem (h : x.Interned s g t) (hg : x.graph.WellFormed)
    (hin : ⟨src, t, kind⟩ ∈ g.edges) (hgraph : y.graph = g) (hreturns : y.newReturns = x.newReturns)
    (hedges : y.newEdges = x.newEdges) : Extends x y ∧ x.graph.Joined y.graph src kind t := by
  have hin' := hin
  rw [h.edges_eq] at hin'
  refine ⟨⟨hgraph ▸ h.grows, hgraph ▸ h.marks, hreturns, fun e he => hedges ▸ he,
    fun e he => .inl (hedges ▸ he), fun e a ha => .inl ?_, ?_⟩, ?_⟩
  · rwa [hgraph, h.edges_eq] at ha
  · rw [hgraph, hedges, h.edges_eq]
  · rw [hgraph]
    exact ⟨h.wellFormed, h.frontier, h.grows, h.marks, hin, fun a ha => .inl (h.edges_eq ▸ ha),
      h.eq_of_lt, h.covered (hg.target_lt _ hin')⟩

/-- The edge is new and leads to an explored state, so it waits. -/
theorem joined_of_explored (h : x.Interned s g t) (hg : x.graph.WellFormed) (hsrc : src < g.size)
    (hnew : ⟨src, t, kind⟩ ∉ g.edges) (hexp : (g.node t).explored = true)
    (hgraph : y.graph = g.link ⟨src, t, kind⟩) (hreturns : y.newReturns = x.newReturns)
    (hedges : y.newEdges = g.edges.size :: x.newEdges) :
    Extends x y ∧ x.graph.Joined y.graph src kind t := by
  have ht : t < x.graph.size := by
    by_contra hge
    rw [h.node_eq, Graph.node_eq_default (hg.nodes_size ▸ Nat.le_of_not_lt hge)] at hexp
    exact Bool.false_ne_true hexp
  have hgrows := h.grows.trans (g.grows_link ⟨src, t, kind⟩)
  have hmarks : x.graph.SameMarks (g.link ⟨src, t, kind⟩) := h.marks_link hsrc
  refine ⟨⟨hgraph ▸ hgrows, hgraph ▸ hmarks, hreturns, fun e he => ?_, fun e he => ?_,
    fun e a ha => ?_, ?_⟩, ?_⟩
  · rw [hedges]
    exact List.mem_cons_of_mem _ he
  · rw [hedges] at he
    rw [hgraph, Graph.edges_link, Array.size_push]
    rcases List.mem_cons.mp he with rfl | he
    · exact .inr (Nat.lt_succ_self _)
    · exact .inl he
  · rw [hgraph] at ha
    rw [hedges]
    rcases h.getElem?_link ha with hold | ⟨rfl, -⟩
    · exact .inl hold
    · exact .inr (.inl List.mem_cons_self)
  · rw [hgraph, hedges, Graph.edges_link, Array.size_push, h.edges_eq, List.length_cons]
    omega
  · rw [hgraph]
    refine ⟨h.wellFormed.link hsrc h.target.1 hnew, h.frontier.link h.wellFormed hsrc h.target.1, hgrows,
      hmarks, Array.mem_push_self, fun a ha => h.mem_edges_link ha, h.eq_of_lt, fun hc id hid => ?_⟩
    rw [(hmarks id).2.1, ← h.node_eq]
    exact h.covered ht hc id hid

/-- The edge is new and leads to a state that has still to be explored, which goes to the frontier. -/
theorem joined_of_unexplored (h : x.Interned s g t) (hsrc : src < g.size)
    (hnew : ⟨src, t, kind⟩ ∉ g.edges) (hexp : (g.node t).explored = false)
    (hgraph : y.graph = (g.link ⟨src, t, kind⟩).pushFrontier t)
    (hreturns : y.newReturns = x.newReturns) (hedges : y.newEdges = x.newEdges) :
    Extends x y ∧ x.graph.Joined y.graph src kind t := by
  have hshape := Graph.sameShape_pushFrontier (g.link ⟨src, t, kind⟩) t
  have hlink : x.graph.SameMarks (g.link ⟨src, t, kind⟩) := h.marks_link hsrc
  have hmarks := hlink.trans (Graph.sameMarks_pushFrontier (g.link ⟨src, t, kind⟩) t)
  have hgrows := (h.grows.trans (g.grows_link ⟨src, t, kind⟩)).trans hshape.grows
  have hwf := h.wellFormed.link hsrc h.target.1 hnew
  have hfront : (g.link ⟨src, t, kind⟩).FrontierInOrder :=
    h.frontier.link h.wellFormed hsrc h.target.1
  refine ⟨⟨hgraph ▸ hgrows, hgraph ▸ hmarks, hreturns, fun e he => hedges ▸ he,
    fun e he => .inl (hedges ▸ he), fun e a ha => ?_, ?_⟩, ?_⟩
  · rw [hgraph, hshape.edges_eq] at ha
    rcases h.getElem?_link ha with hold | ⟨-, rfl⟩
    · exact .inl hold
    · refine .inr (.inr ?_)
      rw [hgraph, (hmarks t).2.1, ← h.node_eq, hexp]
  · rw [hgraph, hedges, hshape.edges_eq, Graph.edges_link, Array.size_push, h.edges_eq]
    omega
  · rw [hgraph]
    refine ⟨hshape.wellFormed hwf, hfront.pushFrontier hwf h.target.1, hgrows, hmarks, ?_, ?_, ?_,
      fun hc id hid => ?_⟩
    · rw [hshape.edges_eq]
      exact Array.mem_push_self
    · rw [hshape.edges_eq]
      exact fun a ha => h.mem_edges_link ha
    · rw [hshape.size_eq]
      exact h.eq_of_lt
    · rw [hshape.size_eq] at hid
      rw [(hmarks id).2.1]
      rcases h.eq_of_lt id hid with hid | rfl
      · refine (hc id hid).imp_right fun hmem => Graph.mem_frontier_pushFrontier ?_
        exact h.frontier_eq ▸ hmem
      · rw [← (hlink id).2.1]
        exact Graph.explored_or_mem_pushFrontier hfront id

end Interned

/-- Adding an edge joins its source to the state, and queues the edge if need be. -/
theorem extends_addEdge {x : Exploration} (hg : x.graph.WellFormed) (hf : x.graph.FrontierInOrder)
    {src : StateId} (hsrc : src < x.graph.size) (kind : EdgeKind) (s : State) :
    Extends x (x.addEdge src kind s) ∧
      ∃ t, x.graph.Joined (x.addEdge src kind s).graph src kind t ∧
        (x.addEdge src kind s).graph.state t = s := by
  have hinterned := interned_intern hg hf s
  generalize hintern : x.graph.intern s = p at hinterned
  obtain ⟨g, t⟩ := p
  have hlt : src < g.size := hsrc.trans_le hinterned.grows.size_le
  obtain ⟨hreturns, hcases⟩ := addEdge_cases hg hsrc kind s hintern rfl
  rcases hcases with ⟨hin, hgraph, hedges⟩ | ⟨hnew, hexp, hgraph, hedges⟩ |
    ⟨hnew, hexp, hgraph, hedges⟩
  · obtain ⟨hext, hjoined⟩ := hinterned.joined_of_mem hg hin hgraph hreturns hedges
    exact ⟨hext, t, hjoined, hgraph ▸ hinterned.target.2⟩
  · obtain ⟨hext, hjoined⟩ := hinterned.joined_of_explored hg hlt hnew hexp hgraph hreturns hedges
    exact ⟨hext, t, hjoined, hgraph ▸ hinterned.target.2⟩
  · obtain ⟨hext, hjoined⟩ := hinterned.joined_of_unexplored hlt hnew hexp hgraph hreturns hedges
    refine ⟨hext, t, hjoined, ?_⟩
    rw [hgraph, (Graph.sameShape_pushFrontier _ t).state_eq]
    exact hinterned.target.2

end Exploration

/-! ### Recorded facts -/

section Recorded

variable {code : Code} {vectors : Int} {start : State}

/-- A graph that records derivable facts only. -/
structure Graph.Consistent (code : Code) (vectors : Int) (start : State) (g : Graph) : Prop where
  /-- The graph is well-formed. -/
  wellFormed : g.WellFormed
  /-- The frontier is in order. -/
  frontier : g.FrontierInOrder
  /-- The start state is a node. -/
  eden : g.eden < g.size ∧ g.state g.eden = start
  /-- Every node is a state that can be reached. -/
  reached : ∀ id < g.size, Derivable code vectors start (.reached (g.state id))
  /-- Every edge is a transition or a summary of an explored state. -/
  edges : ∀ a ∈ g.edges, (g.node a.source).explored = true ∧
    Derivable code vectors start (.edge (g.state a.source) a.kind (g.state a.target))
  /-- A marked state is explored and is a return state. -/
  kinds : ∀ id, (g.node id).kind ≠ .normal →
    (g.node id).explored = true ∧ code.Ends (g.state id) (g.node id).kind
  /-- An element of a return set is a marked state that can be reached without entering a frame. -/
  returns : ∀ n r, (g.node n).returns.contains r = true →
    (g.node n).explored = true ∧ (g.node r).kind ≠ .normal ∧
      Derivable code vectors start (.returns (g.state n) (g.state r))

namespace Graph.Consistent

variable {g g' : Graph}

theorem lt_of_explored (hg : g.Consistent code vectors start) {id : StateId}
    (h : (g.node id).explored = true) : id < g.size := by
  by_contra hge
  rw [Graph.node_eq_default (hg.wellFormed.nodes_size ▸ Nat.le_of_not_lt hge)] at h
  exact Bool.false_ne_true h

theorem lt_of_marked (hg : g.Consistent code vectors start) {id : StateId}
    (h : (g.node id).kind ≠ .normal) : id < g.size :=
  hg.lt_of_explored (hg.kinds id h).1

/-- The marks stay and every new state and edge is derivable. -/
theorem of_sameMarks (hg : g.Consistent code vectors start) (hgrows : g.Grows g')
    (hmarks : g.SameMarks g') (hwf : g'.WellFormed) (hf : g'.FrontierInOrder)
    (hreached : ∀ id < g'.size, id < g.size ∨ Derivable code vectors start (.reached (g'.state id)))
    (hedges : ∀ a ∈ g'.edges, a ∈ g.edges ∨ (g.node a.source).explored = true ∧
      Derivable code vectors start (.edge (g'.state a.source) a.kind (g'.state a.target))) :
    g'.Consistent code vectors start where
  wellFormed := hwf
  frontier := hf
  eden := by
    rw [hgrows.eden_eq, hgrows.state_eq _ hg.eden.1]
    exact ⟨hg.eden.1.trans_le hgrows.size_le, hg.eden.2⟩
  reached id hid := by
    rcases hreached id hid with hid | h
    · rw [hgrows.state_eq id hid]
      exact hg.reached id hid
    · exact h
  edges a ha := by
    rw [(hmarks a.source).2.1]
    rcases hedges a ha with ha | h
    · rw [hgrows.state_eq _ (hg.wellFormed.source_lt a ha),
        hgrows.state_eq _ (hg.wellFormed.target_lt a ha)]
      exact hg.edges a ha
    · exact h
  kinds id hid := by
    obtain ⟨hkind, hexp, -⟩ := hmarks id
    rw [hkind] at hid ⊢
    rw [hexp, hgrows.state_eq id (hg.lt_of_marked hid)]
    exact hg.kinds id hid
  returns n r hr := by
    rw [(hmarks n).2.2] at hr
    obtain ⟨hexp, hkind, hret⟩ := hg.returns n r hr
    rw [(hmarks n).2.1, (hmarks r).1, hgrows.state_eq n (hg.lt_of_explored hexp),
      hgrows.state_eq r (hg.lt_of_marked hkind)]
    exact ⟨hexp, hkind, hret⟩

/-- Adding a derivable edge of an explored state keeps a graph consistent. -/
theorem joined (hg : g.Consistent code vectors start) {src t : StateId} {kind : EdgeKind}
    (hsrc : (g.node src).explored = true) (hj : g.Joined g' src kind t)
    (hedge : Derivable code vectors start (.edge (g.state src) kind (g'.state t))) :
    g'.Consistent code vectors start := by
  refine hg.of_sameMarks hj.grows hj.marks hj.wellFormed hj.frontier ?_ ?_
  · intro id hid
    refine (hj.eq_of_lt id hid).imp_right fun h => ?_
    rw [h]
    exact .target hedge
  · intro a ha
    refine (hj.eq_of_mem a ha).imp_right fun h => ?_
    subst h
    refine ⟨hsrc, ?_⟩
    rw [hj.grows.state_eq src (hg.lt_of_explored hsrc)]
    exact hedge

/-- Taking a state from the frontier keeps a graph consistent. -/
theorem begin (hg : g.Consistent code vectors start) {id : StateId} {rest : List StateId}
    (hfront : g.frontier = id :: rest) : (g.begin id).Consistent code vectors start := by
  have hwait := hg.frontier.waiting id (hfront ▸ List.mem_cons_self)
  have hshape := g.sameShape_begin id
  have hexp : ∀ j, (g.node j).explored = true → ((g.begin id).node j).explored = true :=
    fun _ => Graph.explored_begin (hg.wellFormed.nodes_size ▸ hwait.1) hwait.2
  refine ⟨hshape.wellFormed hg.wellFormed, hg.frontier.begin hg.wellFormed hfront, ?_, ?_, ?_, ?_, ?_⟩
  · rw [hshape.eden_eq, hshape.size_eq, hshape.state_eq]
    exact hg.eden
  · intro j hj
    rw [hshape.size_eq] at hj
    rw [hshape.state_eq]
    exact hg.reached j hj
  · intro a ha
    rw [hshape.edges_eq] at ha
    rw [hshape.state_eq, hshape.state_eq]
    exact ⟨hexp _ (hg.edges a ha).1, (hg.edges a ha).2⟩
  · intro j hj
    rw [Graph.kind_begin] at hj ⊢
    rw [hshape.state_eq]
    exact ⟨hexp _ (hg.kinds j hj).1, (hg.kinds j hj).2⟩
  · intro n r hr
    rw [Graph.returns_begin] at hr
    obtain ⟨hn, hmark, hret⟩ := hg.returns n r hr
    rw [Graph.kind_begin, hshape.state_eq, hshape.state_eq]
    exact ⟨hexp n hn, hmark, hret⟩

/-- Marking an explored return state keeps a graph consistent. -/
theorem setKind (hg : g.Consistent code vectors start) {id : StateId} {k : StateKind}
    (hid : (g.node id).explored = true) (hk : code.Ends (g.state id) k) :
    (g.setKind id k).Consistent code vectors start := by
  have hnode := Graph.node_setKind (hg.wellFormed.nodes_size ▸ hg.lt_of_explored hid) k
  have hshape := g.sameShape_setKind id k
  refine ⟨hshape.wellFormed hg.wellFormed, hg.frontier.setKind id k, hg.eden, hg.reached, ?_, ?_, ?_⟩
  · intro a ha
    rw [Graph.explored_setKind]
    exact hg.edges a ha
  · intro j hj
    rw [Graph.explored_setKind]
    by_cases hjd : j = id
    · subst hjd
      rw [hnode, if_pos rfl]
      exact ⟨hid, hk⟩
    · rw [hnode, if_neg hjd] at hj ⊢
      exact hg.kinds j hj
  · intro n r hr
    rw [Graph.returns_setKind] at hr
    obtain ⟨hn, hmark, hret⟩ := hg.returns n r hr
    rw [Graph.explored_setKind]
    refine ⟨hn, ?_, hret⟩
    rw [hnode]
    split
    · exact hk.ne_normal
    · exact hmark

end Graph.Consistent

namespace Exploration

/-- An exploration whose graph is consistent and whose queues hold what may wait there. -/
structure Valid (code : Code) (vectors : Int) (start : State) (x : Exploration) : Prop where
  /-- The graph records derivable facts only. -/
  consistent : x.graph.Consistent code vectors start
  /-- Every state is explored or waits. -/
  covered : x.graph.Covered
  /-- Only edges wait. -/
  newEdges_lt : ∀ e ∈ x.newEdges, e < x.graph.edges.size
  /-- Only marked states wait. -/
  newReturns_marked : ∀ r ∈ x.newReturns, (x.graph.node r).kind ≠ .normal

/-- The edges of a kind to a state that were added one after the other. -/
def addAll (x : Exploration) (id : StateId) (moves : List (EdgeKind × State)) : Exploration :=
  moves.foldl (fun x m => x.addEdge id m.1 m.2) x

/-- There is an edge of a kind from `id` to a state. -/
def Leads (g : Graph) (id : StateId) (kind : EdgeKind) (s : State) : Prop :=
  ∃ v, ⟨id, v, kind⟩ ∈ g.edges ∧ g.state v = s

theorem Leads.grows {g g' : Graph} (hwf : g.WellFormed) (h : g.Grows g') {id : StateId}
    {kind : EdgeKind} {s : State} (hl : Leads g id kind s) : Leads g' id kind s := by
  obtain ⟨v, hv, hs⟩ := hl
  exact ⟨v, h.mem_edges hv, (h.state_eq v (hwf.target_lt _ hv)).trans hs⟩

theorem Valid.addEdge {x : Exploration} (hx : x.Valid code vectors start) {id : StateId}
    (hid : (x.graph.node id).explored = true) {kind : EdgeKind} {s : State}
    (hedge : Derivable code vectors start (.edge (x.graph.state id) kind s)) :
    (x.addEdge id kind s).Valid code vectors start ∧ Extends x (x.addEdge id kind s) ∧
      Leads (x.addEdge id kind s).graph id kind s := by
  have hg := hx.consistent
  obtain ⟨hext, t, hjoined, hstate⟩ :=
    extends_addEdge hg.wellFormed hg.frontier (hg.lt_of_explored hid) kind s
  have hjoin : Derivable code vectors start
      (.edge (x.graph.state id) kind ((x.addEdge id kind s).graph.state t)) := by rwa [hstate]
  refine ⟨⟨hg.joined hid hjoined hjoin, hjoined.covered hx.covered, ?_, ?_⟩, hext,
    t, hjoined.mem_edges, hstate⟩
  · intro e he
    rcases hext.newEdges_lt e he with he | he
    · exact (hx.newEdges_lt e he).trans_le hext.grows.edges_size_le
    · exact he
  · intro r hr
    rw [hext.newReturns_eq] at hr
    rw [(hext.marks r).1]
    exact hx.newReturns_marked r hr

/-- Adding derivable edges of one explored state. -/
theorem Valid.addAll {x : Exploration} (hx : x.Valid code vectors start) {id : StateId}
    (hid : (x.graph.node id).explored = true) {moves : List (EdgeKind × State)}
    (hmoves : ∀ m ∈ moves, Derivable code vectors start (.edge (x.graph.state id) m.1 m.2)) :
    (x.addAll id moves).Valid code vectors start ∧ Extends x (x.addAll id moves) ∧
      ∀ m ∈ moves, Leads (x.addAll id moves).graph id m.1 m.2 := by
  induction moves generalizing x with
  | nil => exact ⟨hx, .refl x, fun m hm => absurd hm List.not_mem_nil⟩
  | cons m rest ih =>
    obtain ⟨hvalid, hext, hlead⟩ := hx.addEdge hid (hmoves m List.mem_cons_self)
    have hlt := hx.consistent.lt_of_explored hid
    have hid' : ((x.addEdge id m.1 m.2).graph.node id).explored = true :=
      (hext.marks id).2.1.trans hid
    have hrest : ∀ n ∈ rest, Derivable code vectors start
        (.edge ((x.addEdge id m.1 m.2).graph.state id) n.1 n.2) := by
      intro n hn
      rw [hext.grows.state_eq id hlt]
      exact hmoves n (List.mem_cons_of_mem _ hn)
    obtain ⟨hvalid', hext', hlead'⟩ := ih hvalid hid' hrest
    refine ⟨hvalid', hext.trans hext', fun n hn => ?_⟩
    rcases List.mem_cons.mp hn with rfl | hn
    · exact hlead.grows hvalid.consistent.wellFormed hext'.grows
    · exact hlead' n hn

/-! ### The transitions of a state by itself -/

/-- The transitions of the interrupts that may fire. -/
def interruptMoves (vectors : Int) (s : State) : List (EdgeKind × State) :=
  s.interrupts.map fun num => (.interrupt, handlerState vectors s num)

/-- The transitions that follow from the effect of an instruction that left `t`. -/
def effectMoves (code : Code) (t : State) : Effect → List (EdgeKind × State)
  | .next taken => (taken.toList ++ [t]).map fun u => (.normal, u)
  | .push => [(.push, t)]
  | .pop => [(.pop, t)]
  | .call a => [(.call, { t with pc := a })]
  | .indirectCall => ((code.targets? t.pc).getD []).map fun a => (.call, { t with pc := a })
  | .indirectJump => ((code.targets? t.pc).getD []).map fun a => (.normal, { t with pc := a })
  | .halt | .ret | .reti => []

theorem interrupts_eq_addAll (x : Exploration) (vectors : Int) (id : StateId) (s : State) :
    x.interrupts vectors id s = x.addAll id (interruptMoves vectors s) := by
  rw [interrupts, addAll, interruptMoves, List.foldl_map]

/-- Applying an effect adds its transitions, and marks a return state. -/
theorem apply_eq {x y : Exploration} {id : StateId} {t : State} {e : Effect}
    (h : x.apply code id t e = (y, none)) :
    (e = .ret ∧ y = x.markReturn id .ret) ∨ (e = .reti ∧ y = x.markReturn id .reti) ∨
      (e ≠ .ret ∧ e ≠ .reti ∧ y = x.addAll id (effectMoves code t e)) := by
  cases e with
  | ret => exact .inl ⟨rfl, (congrArg Prod.fst h).symm⟩
  | reti => exact .inr (.inl ⟨rfl, (congrArg Prod.fst h).symm⟩)
  | next taken =>
    refine .inr (.inr ⟨by simp, by simp, ?_⟩)
    rw [addAll, effectMoves, List.foldl_map]
    exact (congrArg Prod.fst h).symm
  | indirectCall | indirectJump =>
    refine .inr (.inr ⟨by simp, by simp, ?_⟩)
    rw [apply] at h
    rw [addAll, effectMoves, List.foldl_map]
    cases htargets : code.targets? t.pc with
    | none => simp [htargets] at h
    | some targets =>
      rw [htargets] at h
      exact (congrArg Prod.fst h).symm
  | halt | push | pop | call a => exact .inr (.inr ⟨by simp, by simp, (congrArg Prod.fst h).symm⟩)

/-- Applying an effect fails exactly for want of the targets of an indirect transfer. -/
theorem apply_eq_none_iff (x : Exploration) (id : StateId) (t : State) (e : Effect) :
    (x.apply code id t e).2 = none ↔
      (e = .indirectCall ∨ e = .indirectJump → code.targets? t.pc ≠ none) := by
  cases e with
  | indirectCall => cases htargets : code.targets? t.pc <;> simp [apply, htargets]
  | indirectJump => cases htargets : code.targets? t.pc <;> simp [apply, htargets]
  | _ => simp [apply]

theorem move_of_mem_interruptMoves {s : State} {m : EdgeKind × State}
    (h : m ∈ interruptMoves vectors s) : code.Move vectors s m.1 m.2 := by
  obtain ⟨num, hnum, rfl⟩ := List.mem_map.mp h
  exact .interrupt hnum

theorem move_of_mem_effectMoves {s t : State} {e : Effect} (hexec : code.Executes s t e)
    {m : EdgeKind × State} (h : m ∈ effectMoves code t e) : code.Move vectors s m.1 m.2 := by
  cases e with
  | next taken =>
    obtain ⟨u, hu, rfl⟩ := List.mem_map.mp h
    rcases List.mem_append.mp hu with hu | hu
    · rw [Option.mem_toList] at hu
      exact .taken (hu ▸ hexec)
    · rw [List.mem_singleton.mp hu]
      exact .next hexec
  | push =>
    rw [List.mem_singleton.mp h]
    exact .push hexec
  | pop =>
    rw [List.mem_singleton.mp h]
    exact .pop hexec
  | call a =>
    rw [List.mem_singleton.mp h, hexec.eq_of_delegated rfl]
    exact .call hexec
  | indirectCall =>
    obtain rfl := hexec.eq_of_delegated rfl
    obtain ⟨a, ha, rfl⟩ := List.mem_map.mp h
    cases htargets : code.targets? t.pc with
    | none => simp [htargets] at ha
    | some targets => exact .indirectCall hexec htargets (by simpa [htargets] using ha)
  | indirectJump =>
    obtain rfl := hexec.eq_of_delegated rfl
    obtain ⟨a, ha, rfl⟩ := List.mem_map.mp h
    cases htargets : code.targets? t.pc with
    | none => simp [htargets] at ha
    | some targets => exact .indirectJump hexec htargets (by simpa [htargets] using ha)
  | halt => exact absurd h List.not_mem_nil
  | ret => exact absurd h List.not_mem_nil
  | reti => exact absurd h List.not_mem_nil

/-- Every transition of a state by itself is one of an interrupt or of its instruction. -/
theorem mem_moves_of_move {s t u : State} {e : Effect} (hexec : code.Executes s t e)
    {k : EdgeKind} (h : code.Move vectors s k u) :
    (k, u) ∈ interruptMoves vectors s ∨ (k, u) ∈ effectMoves code t e := by
  cases h with
  | interrupt hnum => exact .inl (List.mem_map.mpr ⟨_, hnum, rfl⟩)
  | next h =>
    obtain ⟨rfl, rfl⟩ := hexec.unique h
    exact .inr (by simp [effectMoves])
  | taken h =>
    obtain ⟨rfl, rfl⟩ := hexec.unique h
    exact .inr (by simp [effectMoves])
  | push h =>
    obtain ⟨rfl, rfl⟩ := hexec.unique h
    exact .inr (by simp [effectMoves])
  | pop h =>
    obtain ⟨rfl, rfl⟩ := hexec.unique h
    exact .inr (by simp [effectMoves])
  | call h =>
    obtain ⟨rfl, rfl⟩ := hexec.unique h
    obtain rfl := h.eq_of_delegated rfl
    exact .inr (by simp [effectMoves])
  | indirectCall h htargets ha =>
    obtain ⟨rfl, rfl⟩ := hexec.unique h
    obtain rfl := h.eq_of_delegated rfl
    exact .inr (by simp [effectMoves, htargets, ha])
  | indirectJump h htargets ha =>
    obtain ⟨rfl, rfl⟩ := hexec.unique h
    obtain rfl := h.eq_of_delegated rfl
    exact .inr (by simp [effectMoves, htargets, ha])

theorem addAll_append (x : Exploration) (id : StateId) (ms ns : List (EdgeKind × State)) :
    x.addAll id (ms ++ ns) = (x.addAll id ms).addAll id ns :=
  List.foldl_append

/-- Exploring the latest state of the frontier adds all transitions that it has by itself, and marks it
if it is a return state. -/
theorem explore_spec {x y : Exploration} {id : StateId}
    (h : ({ x with graph := x.graph.dropFrontier id } : Exploration).explore code vectors id =
      (y, none)) :
    ∃ (x₁ : Exploration) (t : State) (e : Effect),
      x₁.graph = x.graph.begin id ∧ x₁.newReturns = x.newReturns ∧ x₁.newEdges = x.newEdges ∧
      code.Executes (x.graph.state id) t e ∧ ¬ code.Stuck (x.graph.state id) ∧
      ((∀ k, ¬ code.Ends (x.graph.state id) k) ∧
          y = x₁.addAll id (interruptMoves vectors (x.graph.state id) ++ effectMoves code t e) ∨
        ∃ k, code.Ends (x.graph.state id) k ∧
          y = (x₁.addAll id
            (interruptMoves vectors (x.graph.state id) ++ effectMoves code t e)).markReturn id k) := by
  have hbegin : (x.graph.dropFrontier id).markExplored id = x.graph.begin id := rfl
  have hstate : (x.graph.begin id).state id = x.graph.state id :=
    (x.graph.sameShape_begin id).state_eq id
  unfold explore at h
  split at h
  · simp at h
  · simp only [hbegin, hstate] at h
    split at h
    · simp at h
    · next cell hfetch =>
      unfold execute at h
      simp only [interrupts_eq_addAll] at h
      split at h
      · simp at h
      · next t e hstep =>
        have hexec : code.Executes (x.graph.state id) t e := ⟨cell, hfetch, hstep⟩
        refine ⟨({ x with graph := x.graph.begin id } : Exploration).note
          (.exploring id cell (x.graph.state id)), t, e, rfl, rfl, rfl, hexec,
          hexec.not_stuck ((apply_eq_none_iff _ id t e).mp (congrArg Prod.snd h)), ?_⟩
        rw [addAll_append]
        rcases apply_eq h with ⟨rfl, rfl⟩ | ⟨rfl, rfl⟩ | ⟨hret, hreti, rfl⟩
        · exact .inr ⟨.ret, .ret hexec, rfl⟩
        · exact .inr ⟨.reti, .reti hexec, rfl⟩
        · refine .inl ⟨fun k hk => ?_, rfl⟩
          cases hk with
          | ret h' => exact hret (hexec.unique h').2
          | reti h' => exact hreti (hexec.unique h').2

end Exploration

end Recorded

end StackDepth
