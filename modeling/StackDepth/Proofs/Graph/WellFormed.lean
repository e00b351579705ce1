import Mathlib
import StackDepth.Proofs.Graph.Cache

/-!
# Well-formed graphs

In a well-formed graph the nodes are the interned states, every edge joins two nodes and is listed
exactly at its source and at its target, and no edge occurs twice. The frontier is in order if its list
agrees with the flags of the nodes and holds only states that are not explored.

Each operation that builds a graph keeps both. What an operation leaves alone is said by three
relations: `Grows` for states and edges, `SameMarks` for what is recorded about the states, and the
frontier.

Main statements:

* `Graph.WellFormed.intern`, `Graph.WellFormed.link`: building keeps a graph well-formed;
* `Graph.addEdge_cases`: what adding an edge between two nodes can do;
* `Graph.WellFormed.edges_size_le`, `Graph.WellFormed.incoming_length_le`: bounds on edges.
-/

namespace StackDepth

instance : Fintype EdgeKind := Fintype.ofList EdgeKind.all (by rintro (_ | _) <;> decide)

theorem EdgeKind.card : Fintype.card EdgeKind = 8 := rfl

namespace Graph

/-! ### Nodes after an update -/

theorem getD_modify (nodes : Array Node) (f : Node → Node) (i id : StateId) :
    (nodes.modify i f).getD id {} =
      if id = i ∧ i < nodes.size then f (nodes.getD id {}) else nodes.getD id {} := by
  simp only [Array.getD_eq_getD_getElem?, Array.getElem?_modify]
  by_cases hid : i = id
  · subst hid
    by_cases hlt : i < nodes.size
    · simp [hlt]
    · simp [hlt]
  · simp [hid, Ne.symm hid]

/-- What an update of one node keeps of it, it keeps of every node. -/
theorem keeps_getD_modify {α : Type} (field : Node → α) (f : Node → Node)
    (hf : ∀ n, field (f n) = field n) (nodes : Array Node) (i id : StateId) :
    field ((nodes.modify i f).getD id {}) = field (nodes.getD id {}) := by
  rw [getD_modify]
  split
  · exact hf _
  · rfl

theorem getD_push_default (nodes : Array Node) (id : StateId) :
    (nodes.push {}).getD id {} = nodes.getD id {} := by
  simp only [Array.getD_eq_getD_getElem?, Array.getElem?_push]
  by_cases hid : id = nodes.size
  · simp [hid]
  · simp [hid]

/-- A node beyond the last one has nothing recorded. -/
theorem node_eq_default {g : Graph} {id : StateId} (h : g.nodes.size ≤ id) : g.node id = {} := by
  simp [node, Array.getD_eq_getD_getElem?, Array.getElem?_eq_none h]

theorem edge_eq {g : Graph} {e : EdgeId} {a : Edge} (h : g.edges[e]? = some a) : g.edge e = a := by
  simp [edge, Array.getD_eq_getD_getElem?, h]

theorem lt_of_getElem? {g : Graph} {e : EdgeId} {a : Edge} (h : g.edges[e]? = some a) :
    e < g.edges.size := by
  obtain ⟨hlt, -⟩ := Array.getElem?_eq_some_iff.mp h
  exact hlt

theorem getElem?_of_lt {g : Graph} {e : EdgeId} (h : e < g.edges.size) :
    g.edges[e]? = some (g.edge e) := by
  simp [edge, Array.getD_eq_getD_getElem?, h]

/-! ### Well-formed graphs -/

/-- The nodes are the interned states, and every edge is listed at its two ends and nowhere else. -/
structure WellFormed (g : Graph) : Prop where
  /-- Different nodes are different states. -/
  faithful : g.cache.Faithful
  /-- Every interned state has a node. -/
  nodes_size : g.nodes.size = g.size
  /-- Every edge leaves a node. -/
  source_lt : ∀ a ∈ g.edges, a.source < g.size
  /-- Every edge enters a node. -/
  target_lt : ∀ a ∈ g.edges, a.target < g.size
  /-- An edge is listed at its source. -/
  mem_outgoing : ∀ (id : StateId) (e : EdgeId), e ∈ g.outgoing id ↔ ∃ a, g.edges[e]? = some a ∧ a.source = id
  /-- An edge is listed at its target. -/
  mem_incoming : ∀ (id : StateId) (e : EdgeId), e ∈ g.incoming id ↔ ∃ a, g.edges[e]? = some a ∧ a.target = id
  /-- An edge is listed once. -/
  nodup_incoming : ∀ id, (g.incoming id).Nodup
  /-- No edge occurs twice. -/
  nodup_edges : g.edges.toList.Nodup

/-- The list of waiting states agrees with the flags of the nodes. -/
structure FrontierInOrder (g : Graph) : Prop where
  /-- The flags tell which states are listed. -/
  onFrontier_iff : ∀ id, (g.node id).onFrontier = true ↔ id ∈ g.frontier
  /-- No state is listed twice. -/
  nodup : g.frontier.Nodup
  /-- A listed state is a node that is not explored. -/
  waiting : ∀ id ∈ g.frontier, id < g.size ∧ (g.node id).explored = false

/-- Every state is explored or waits. -/
def Covered (g : Graph) : Prop :=
  ∀ id < g.size, (g.node id).explored = true ∨ id ∈ g.frontier

/-- States and edges keep their numbers. -/
structure Grows (g g' : Graph) : Prop where
  /-- No state is lost. -/
  size_le : g.size ≤ g'.size
  /-- A state keeps its number. -/
  state_eq : ∀ id < g.size, g'.state id = g.state id
  /-- An edge keeps its number. -/
  edge_eq : ∀ (e : EdgeId) (a : Edge), g.edges[e]? = some a → g'.edges[e]? = some a
  /-- The start state stays. -/
  eden_eq : g'.eden = g.eden

/-- The same is recorded about every state, edges and waiting apart. -/
def SameMarks (g g' : Graph) : Prop :=
  ∀ id, (g'.node id).kind = (g.node id).kind ∧ (g'.node id).explored = (g.node id).explored ∧
    (g'.node id).returns = (g.node id).returns

theorem Grows.refl (g : Graph) : Grows g g :=
  ⟨le_rfl, fun _ _ => rfl, fun _ _ h => h, rfl⟩

theorem Grows.trans {f g h : Graph} (hfg : Grows f g) (hgh : Grows g h) : Grows f h where
  size_le := hfg.size_le.trans hgh.size_le
  state_eq id hid := by rw [hgh.state_eq id (hid.trans_le hfg.size_le), hfg.state_eq id hid]
  edge_eq e a he := hgh.edge_eq e a (hfg.edge_eq e a he)
  eden_eq := by rw [hgh.eden_eq, hfg.eden_eq]

theorem Grows.mem_edges {g g' : Graph} (h : Grows g g') {a : Edge} (ha : a ∈ g.edges) :
    a ∈ g'.edges := by
  obtain ⟨e, he⟩ := Array.mem_iff_getElem?.mp ha
  exact Array.mem_iff_getElem?.mpr ⟨e, h.edge_eq e a he⟩

theorem Grows.edges_size_le {g g' : Graph} (h : Grows g g') : g.edges.size ≤ g'.edges.size := by
  by_contra hlt
  have hlast := h.edge_eq g'.edges.size _ (getElem?_of_lt (Nat.lt_of_not_le hlt))
  exact absurd (lt_of_getElem? hlast) (lt_irrefl _)

theorem SameMarks.refl (g : Graph) : SameMarks g g := fun _ => ⟨rfl, rfl, rfl⟩

theorem SameMarks.trans {f g h : Graph} (hfg : SameMarks f g) (hgh : SameMarks g h) :
    SameMarks f h := by
  intro id
  obtain ⟨hk, he, hr⟩ := hfg id
  obtain ⟨hk', he', hr'⟩ := hgh id
  exact ⟨hk'.trans hk, he'.trans he, hr'.trans hr⟩

namespace WellFormed

variable {g : Graph}

theorem state?_of_lt {id : StateId} (h : id < g.size) : g.cache.state? id = some (g.state id) := by
  have hsome : g.cache.state? id = some g.cache.states[id] := Array.getElem?_eq_getElem h
  rw [state, hsome, Option.getD_some]

/-- Different nodes are different states. -/
theorem state_injective (hg : g.WellFormed) {i j : StateId} (hi : i < g.size) (hj : j < g.size)
    (h : g.state i = g.state j) : i = j := by
  refine hg.faithful.injective (state?_of_lt hi) ?_
  rw [h]
  exact state?_of_lt hj

theorem edge_injective (hg : g.WellFormed) {e f : EdgeId} {a : Edge} (he : g.edges[e]? = some a)
    (hf : g.edges[f]? = some a) : e = f := by
  rw [← Array.getElem?_toList] at he hf
  have hlt : e < g.edges.toList.length := (List.getElem?_eq_some_iff.mp he).1
  exact (List.getElem?_inj hlt hg.nodup_edges).mp (he.trans hf.symm)

theorem size_le (hg : g.WellFormed) : g.size ≤ stateBound := hg.faithful.size_le

theorem edges_size_le (hg : g.WellFormed) : g.edges.size ≤ 8 * (g.size * g.size) := by
  -- an edge is determined by its two ends and one of eight kinds
  have hinj : Function.Injective (fun e : Fin g.edges.size =>
      ((⟨g.edges[e].source, hg.source_lt _ (Array.getElem_mem _)⟩,
        ⟨g.edges[e].target, hg.target_lt _ (Array.getElem_mem _)⟩,
        g.edges[e].kind) : Fin g.size × Fin g.size × EdgeKind)) := by
    intro e f hef
    simp only [Prod.mk.injEq, Fin.mk.injEq] at hef
    have hedge : g.edges[e] = g.edges[f] := Edge.ext hef.1 hef.2.1 hef.2.2
    refine Fin.ext (hg.edge_injective (Array.getElem?_eq_getElem e.isLt) ?_)
    rw [show g.edges[e.val] = g.edges[f.val] from hedge]
    exact Array.getElem?_eq_getElem f.isLt
  have hcard := Fintype.card_le_of_injective _ hinj
  simp only [Fintype.card_fin, Fintype.card_prod, EdgeKind.card] at hcard
  calc g.edges.size ≤ g.size * (g.size * 8) := hcard
    _ = 8 * (g.size * g.size) := by ring

theorem incoming_length_le (hg : g.WellFormed) (id : StateId) :
    (g.incoming id).length ≤ 8 * g.size := by
  have hedge : ∀ e ∈ g.incoming id, g.edges[e]? = some (g.edge e) ∧ (g.edge e).target = id := by
    intro e he
    obtain ⟨a, ha, htarget⟩ := (hg.mem_incoming id e).mp he
    rw [edge_eq ha]
    exact ⟨ha, htarget⟩
  have hsource : ∀ e ∈ g.incoming id, (g.edge e).source < g.size := by
    intro e he
    have hmem : g.edge e ∈ g.edges := Array.mem_of_getElem? (hedge e he).1
    exact hg.source_lt _ hmem
  have hinj : Function.Injective (fun i : Fin (g.incoming id).length =>
      ((⟨(g.edge (g.incoming id)[i]).source, hsource _ (List.getElem_mem _)⟩,
        (g.edge (g.incoming id)[i]).kind) : Fin g.size × EdgeKind)) := by
    intro i j hij
    simp only [Prod.mk.injEq, Fin.mk.injEq] at hij
    obtain ⟨hi, hti⟩ := hedge _ (List.getElem_mem i.isLt)
    obtain ⟨hj, htj⟩ := hedge _ (List.getElem_mem j.isLt)
    have hsame : g.edge (g.incoming id)[i] = g.edge (g.incoming id)[j] :=
      Edge.ext hij.1 (hti.trans htj.symm) hij.2
    have hnumber := hg.edge_injective (hi.trans (congrArg some hsame)) hj
    exact Fin.ext ((hg.nodup_incoming id).getElem_inj_iff.mp hnumber)
  have hcard := Fintype.card_le_of_injective _ hinj
  simp only [Fintype.card_fin, Fintype.card_prod, EdgeKind.card] at hcard
  exact hcard.trans_eq (Nat.mul_comm _ _)

end WellFormed

/-! ### Updates of what is recorded about a state -/

/-- States, edges and the lists of edges are the same. -/
structure SameShape (g g' : Graph) : Prop where
  /-- The states are the same. -/
  cache_eq : g'.cache = g.cache
  /-- The edges are the same. -/
  edges_eq : g'.edges = g.edges
  /-- There are as many nodes. -/
  nodes_size_eq : g'.nodes.size = g.nodes.size
  /-- Every state has the same edges. -/
  lists_eq : ∀ id, (g'.node id).out = (g.node id).out ∧ (g'.node id).into = (g.node id).into
  /-- The start state is the same. -/
  eden_eq : g'.eden = g.eden

theorem SameShape.size_eq {g g' : Graph} (h : SameShape g g') : g'.size = g.size := by
  rw [size, size, h.cache_eq]

theorem SameShape.state_eq {g g' : Graph} (h : SameShape g g') (id : StateId) :
    g'.state id = g.state id := by
  rw [state, state, h.cache_eq]

theorem SameShape.grows {g g' : Graph} (h : SameShape g g') : Grows g g' where
  size_le := h.size_eq.ge
  state_eq id _ := h.state_eq id
  edge_eq e a he := by rwa [h.edges_eq]
  eden_eq := h.eden_eq

theorem SameShape.symm {g g' : Graph} (h : SameShape g g') : SameShape g' g :=
  ⟨h.cache_eq.symm, h.edges_eq.symm, h.nodes_size_eq.symm,
    fun id => ⟨(h.lists_eq id).1.symm, (h.lists_eq id).2.symm⟩, h.eden_eq.symm⟩

theorem SameShape.wellFormed {g g' : Graph} (h : SameShape g g') (hg : g.WellFormed) :
    g'.WellFormed where
  faithful := by
    rw [h.cache_eq]
    exact hg.faithful
  nodes_size := by rw [h.nodes_size_eq, hg.nodes_size, h.size_eq]
  source_lt a ha := by
    rw [h.size_eq]
    exact hg.source_lt a (h.edges_eq ▸ ha)
  target_lt a ha := by
    rw [h.size_eq]
    exact hg.target_lt a (h.edges_eq ▸ ha)
  mem_outgoing id e := by
    rw [outgoing, (h.lists_eq id).1, h.edges_eq]
    exact hg.mem_outgoing id e
  mem_incoming id e := by
    rw [incoming, (h.lists_eq id).2, h.edges_eq]
    exact hg.mem_incoming id e
  nodup_incoming id := by
    rw [incoming, (h.lists_eq id).2]
    exact hg.nodup_incoming id
  nodup_edges := by
    rw [h.edges_eq]
    exact hg.nodup_edges

/-- A change of one node that keeps its edges, whatever becomes of the frontier. -/
theorem sameShape_modify (g g' : Graph) (i : StateId) (f : Node → Node)
    (hnodes : g'.nodes = g.nodes.modify i f) (hf : ∀ n, (f n).out = n.out ∧ (f n).into = n.into)
    (hcache : g'.cache = g.cache) (hedges : g'.edges = g.edges) (heden : g'.eden = g.eden) :
    SameShape g g' where
  cache_eq := hcache
  edges_eq := hedges
  nodes_size_eq := by rw [hnodes, Array.size_modify]
  lists_eq id := by
    rw [node, hnodes, getD_modify]
    split
    · exact hf _
    · exact ⟨rfl, rfl⟩
  eden_eq := heden

theorem sameShape_setKind (g : Graph) (id : StateId) (k : StateKind) :
    SameShape g (g.setKind id k) :=
  sameShape_modify g _ id (fun n => { n with kind := k }) rfl (fun _ => ⟨rfl, rfl⟩)
    rfl rfl rfl

theorem sameShape_setReturns (g : Graph) (id : StateId) (s : ReturnSet) :
    SameShape g (g.setReturns id s) :=
  sameShape_modify g _ id (fun n => { n with returns := s }) rfl (fun _ => ⟨rfl, rfl⟩)
    rfl rfl rfl

theorem sameShape_dropFrontier (g : Graph) (id : StateId) : SameShape g (g.dropFrontier id) :=
  sameShape_modify g _ id (fun n => { n with onFrontier := false }) rfl (fun _ => ⟨rfl, rfl⟩)
    rfl rfl rfl

theorem SameShape.refl (g : Graph) : SameShape g g :=
  ⟨rfl, rfl, rfl, fun _ => ⟨rfl, rfl⟩, rfl⟩

theorem sameShape_markExplored (g : Graph) (id : StateId) : SameShape g (g.markExplored id) := by
  unfold markExplored
  split
  · exact SameShape.refl g
  · exact sameShape_modify g _ id (fun n => { n with explored := true }) rfl (fun _ => ⟨rfl, rfl⟩)
      rfl rfl rfl

theorem sameShape_pushFrontier (g : Graph) (id : StateId) : SameShape g (g.pushFrontier id) := by
  unfold pushFrontier
  split
  · exact SameShape.refl g
  · exact sameShape_modify g _ id (fun n => { n with onFrontier := true }) rfl (fun _ => ⟨rfl, rfl⟩)
      rfl rfl rfl

theorem node_deleteReturns (g : Graph) (id : StateId) :
    g.deleteReturns.node id = { g.node id with returns := {} } := by
  simp only [node, deleteReturns, Array.getD_eq_getD_getElem?, Array.getElem?_map]
  cases g.nodes[id]? <;> rfl

theorem sameShape_deleteReturns (g : Graph) : SameShape g g.deleteReturns :=
  ⟨rfl, rfl, Array.size_map, fun id => by rw [node_deleteReturns]; exact ⟨rfl, rfl⟩, rfl⟩

theorem node_setKind {g : Graph} {i : StateId} (hi : i < g.nodes.size) (k : StateKind)
    (id : StateId) :
    (g.setKind i k).node id = if id = i then { g.node id with kind := k } else g.node id := by
  rw [node, setKind, getD_modify]
  simp [hi, node]

@[simp] theorem explored_setKind (g : Graph) (i : StateId) (k : StateKind) (id : StateId) :
    ((g.setKind i k).node id).explored = (g.node id).explored :=
  keeps_getD_modify Node.explored (fun n => { n with kind := k }) (fun _ => rfl) g.nodes i id

@[simp] theorem onFrontier_setKind (g : Graph) (i : StateId) (k : StateKind) (id : StateId) :
    ((g.setKind i k).node id).onFrontier = (g.node id).onFrontier :=
  keeps_getD_modify Node.onFrontier (fun n => { n with kind := k }) (fun _ => rfl) g.nodes i id

@[simp] theorem returns_setKind (g : Graph) (i : StateId) (k : StateKind) (id : StateId) :
    ((g.setKind i k).node id).returns = (g.node id).returns :=
  keeps_getD_modify Node.returns (fun n => { n with kind := k }) (fun _ => rfl) g.nodes i id

theorem kind_setKind {g : Graph} {i : StateId} (hi : i < g.nodes.size) (k : StateKind) (id : StateId) :
    ((g.setKind i k).node id).kind = if id = i then k else (g.node id).kind := by
  rw [node_setKind hi]
  split <;> rfl

theorem node_setReturns {g : Graph} {i : StateId} (hi : i < g.nodes.size) (s : ReturnSet)
    (id : StateId) :
    (g.setReturns i s).node id = if id = i then { g.node id with returns := s } else g.node id := by
  rw [node, setReturns, getD_modify]
  simp [hi, node]

/-! ### The frontier -/

/-- How an instruction ends does not matter to the frontier. -/
theorem FrontierInOrder.setKind {g : Graph} (hf : g.FrontierInOrder) (i : StateId) (k : StateKind) :
    (g.setKind i k).FrontierInOrder where
  onFrontier_iff id := by
    rw [onFrontier_setKind]
    exact hf.onFrontier_iff id
  nodup := hf.nodup
  waiting id hid := by
    rw [explored_setKind]
    exact hf.waiting id hid

theorem sameMarks_pushFrontier (g : Graph) (id : StateId) : SameMarks g (g.pushFrontier id) := by
  intro j
  unfold pushFrontier
  split
  · exact ⟨rfl, rfl, rfl⟩
  · simp only [node, getD_modify]
    split <;> exact ⟨rfl, rfl, rfl⟩

theorem FrontierInOrder.pushFrontier {g : Graph} (hf : g.FrontierInOrder) {id : StateId}
    (hg : g.WellFormed) (hid : id < g.size) : (g.pushFrontier id).FrontierInOrder := by
  have hnode : id < g.nodes.size := by rwa [hg.nodes_size]
  by_cases hwaits : ((g.node id).onFrontier || (g.node id).explored) = true
  · rw [Graph.pushFrontier, if_pos hwaits]
    exact hf
  · have hfresh : (g.node id).onFrontier = false ∧ (g.node id).explored = false := by
      simpa using hwaits
    have hnew : id ∉ g.frontier := by
      rw [← hf.onFrontier_iff, hfresh.1]
      exact Bool.false_ne_true
    have hmarks := sameMarks_pushFrontier g id
    rw [Graph.pushFrontier, if_neg hwaits] at hmarks ⊢
    refine ⟨?_, List.nodup_cons.mpr ⟨hnew, hf.nodup⟩, ?_⟩
    · intro j
      simp only [node, getD_modify, List.mem_cons]
      by_cases hj : j = id
      · simp [hj, hnode]
      · rw [if_neg (fun h => hj h.1)]
        exact (hf.onFrontier_iff j).trans (by simp [hj])
    · intro j hj
      rw [(hmarks j).2.1]
      rcases List.mem_cons.mp hj with rfl | hj
      · exact ⟨hid, hfresh.2⟩
      · exact hf.waiting j hj

theorem mem_frontier_pushFrontier {g : Graph} {id j : StateId} (h : j ∈ g.frontier) :
    j ∈ (g.pushFrontier id).frontier := by
  unfold pushFrontier
  split
  · exact h
  · exact List.mem_cons_of_mem _ h

theorem explored_or_mem_pushFrontier {g : Graph} (hf : g.FrontierInOrder) (id : StateId) :
    (g.node id).explored = true ∨ id ∈ (g.pushFrontier id).frontier := by
  unfold pushFrontier
  split
  case isTrue h =>
    rcases Bool.or_eq_true_iff.mp h with h | h
    · exact .inr ((hf.onFrontier_iff id).mp h)
    · exact .inl h
  case isFalse => exact .inr List.mem_cons_self

theorem node_dropFrontier {g : Graph} {id : StateId} (hid : id < g.nodes.size) (j : StateId) :
    (g.dropFrontier id).node j =
      if j = id then { g.node j with onFrontier := false } else g.node j := by
  rw [node, dropFrontier, getD_modify]
  simp [hid, node]

theorem explored_dropFrontier (g : Graph) (id j : StateId) :
    ((g.dropFrontier id).node j).explored = (g.node j).explored :=
  keeps_getD_modify Node.explored (fun n => { n with onFrontier := false }) (fun _ => rfl) g.nodes id j

theorem onFrontier_dropFrontier {g : Graph} {id : StateId} (hid : id < g.nodes.size) :
    ((g.dropFrontier id).node id).onFrontier = false := by
  rw [node_dropFrontier hid, if_pos rfl]

theorem node_markExplored {g : Graph} {id : StateId} (hid : id < g.nodes.size)
    (hfresh : (g.node id).explored = false) (j : StateId) :
    (g.markExplored id).node j = if j = id then { g.node j with explored := true } else g.node j := by
  rw [markExplored, if_neg (by simp [hfresh]), node, getD_modify]
  simp [hid, node]

theorem markExplored_of_explored {g : Graph} {id : StateId} (h : (g.node id).explored = true) :
    g.markExplored id = g := by
  rw [markExplored, if_pos h]

theorem frontier_markExplored (g : Graph) (id : StateId) : (g.markExplored id).frontier = g.frontier := by
  unfold markExplored
  split <;> rfl

/-- Taking the latest state from the frontier. -/
theorem FrontierInOrder.dropFrontier {g : Graph} (hf : g.FrontierInOrder) (hg : g.WellFormed)
    {id : StateId} {rest : List StateId} (hfront : g.frontier = id :: rest) :
    (g.dropFrontier id).FrontierInOrder := by
  have hwait := hf.waiting id (hfront ▸ List.mem_cons_self)
  have hnode := node_dropFrontier (hg.nodes_size ▸ hwait.1)
  have hnodup : id ∉ rest ∧ rest.Nodup := List.nodup_cons.mp (hfront ▸ hf.nodup)
  have hrest : (g.dropFrontier id).frontier = rest := by
    rw [Graph.dropFrontier, hfront, List.tail_cons]
  refine ⟨fun j => ?_, hrest ▸ hnodup.2, fun j hj => ?_⟩
  · rw [hnode, hrest]
    by_cases hj : j = id
    · rw [if_pos hj, hj]
      simp [hnodup.1]
    · rw [if_neg hj, hf.onFrontier_iff, hfront]
      simp [hj]
  · rw [hrest] at hj
    rw [(sameShape_dropFrontier g id).size_eq, explored_dropFrontier]
    exact hf.waiting j (hfront ▸ List.mem_cons_of_mem _ hj)

/-- Marking a state that does not wait. -/
theorem FrontierInOrder.markExplored {g : Graph} (hf : g.FrontierInOrder) (hg : g.WellFormed)
    {id : StateId} (hid : id < g.size) (hnot : (g.node id).onFrontier = false) :
    (g.markExplored id).FrontierInOrder := by
  cases hexp : (g.node id).explored with
  | true =>
    rw [markExplored_of_explored hexp]
    exact hf
  | false =>
    have hnode := node_markExplored (hg.nodes_size ▸ hid) hexp
    refine ⟨fun j => ?_, ?_, fun j hj => ?_⟩
    · rw [hnode, frontier_markExplored, ← hf.onFrontier_iff]
      split <;> rfl
    · rw [frontier_markExplored]
      exact hf.nodup
    · rw [frontier_markExplored] at hj
      have hne : j ≠ id := by
        rintro rfl
        rw [← hf.onFrontier_iff, hnot] at hj
        exact Bool.false_ne_true hj
      rw [(sameShape_markExplored g id).size_eq, hnode, if_neg hne]
      exact hf.waiting j hj

/-- The graph after the latest state has left the frontier to be explored. -/
def begin (g : Graph) (id : StateId) : Graph := (g.dropFrontier id).markExplored id

theorem sameShape_begin (g : Graph) (id : StateId) : SameShape g (g.begin id) := by
  have hdrop := sameShape_dropFrontier g id
  have hmark := sameShape_markExplored (g.dropFrontier id) id
  refine ⟨hmark.cache_eq.trans hdrop.cache_eq, hmark.edges_eq.trans hdrop.edges_eq,
    hmark.nodes_size_eq.trans hdrop.nodes_size_eq, fun j => ?_, hmark.eden_eq.trans hdrop.eden_eq⟩
  exact ⟨(hmark.lists_eq j).1.trans (hdrop.lists_eq j).1, (hmark.lists_eq j).2.trans (hdrop.lists_eq j).2⟩

theorem frontier_begin (g : Graph) (id : StateId) : (g.begin id).frontier = g.frontier.tail :=
  frontier_markExplored (g.dropFrontier id) id

theorem node_begin {g : Graph} {id : StateId} (hid : id < g.nodes.size)
    (hfresh : (g.node id).explored = false) (j : StateId) :
    (g.begin id).node j =
      if j = id then { g.node j with onFrontier := false, explored := true } else g.node j := by
  have hlt : id < (g.dropFrontier id).nodes.size := (sameShape_dropFrontier g id).nodes_size_eq ▸ hid
  have hnot : ((g.dropFrontier id).node id).explored = false := by rw [explored_dropFrontier, hfresh]
  rw [begin, node_markExplored hlt hnot, node_dropFrontier hid]
  split <;> rfl

/-- What is kept of a node that leaves the frontier and is marked as explored. -/
theorem keeps_begin {α : Type} (field : Node → α)
    (hfrontier : ∀ n : Node, field { n with onFrontier := false } = field n)
    (hexplored : ∀ n : Node, field { n with explored := true } = field n) (g : Graph) (id j : StateId) :
    field ((g.begin id).node j) = field (g.node j) := by
  have hdrop : field ((g.dropFrontier id).node j) = field (g.node j) :=
    keeps_getD_modify field _ hfrontier g.nodes id j
  unfold begin markExplored
  split
  · exact hdrop
  · exact (keeps_getD_modify field _ hexplored (g.dropFrontier id).nodes id j).trans hdrop

@[simp] theorem kind_begin (g : Graph) (id j : StateId) :
    ((g.begin id).node j).kind = (g.node j).kind :=
  keeps_begin Node.kind (fun _ => rfl) (fun _ => rfl) g id j

@[simp] theorem returns_begin (g : Graph) (id j : StateId) :
    ((g.begin id).node j).returns = (g.node j).returns :=
  keeps_begin Node.returns (fun _ => rfl) (fun _ => rfl) g id j

theorem explored_begin {g : Graph} {id : StateId} (hid : id < g.nodes.size)
    (hfresh : (g.node id).explored = false) {j : StateId} (hj : (g.node j).explored = true) :
    ((g.begin id).node j).explored = true := by
  rw [node_begin hid hfresh]
  split
  · rfl
  · exact hj

theorem FrontierInOrder.begin {g : Graph} (hf : g.FrontierInOrder) (hg : g.WellFormed)
    {id : StateId} {rest : List StateId} (hfront : g.frontier = id :: rest) :
    (g.begin id).FrontierInOrder := by
  have hwait := hf.waiting id (hfront ▸ List.mem_cons_self)
  have hshape := sameShape_dropFrontier g id
  exact (hf.dropFrontier hg hfront).markExplored (hshape.wellFormed hg) (hshape.size_eq ▸ hwait.1)
    (onFrontier_dropFrontier (hg.nodes_size ▸ hwait.1))

theorem Covered.begin {g : Graph} (hc : g.Covered) (hf : g.FrontierInOrder) (hg : g.WellFormed)
    {id : StateId} {rest : List StateId} (hfront : g.frontier = id :: rest) :
    (g.begin id).Covered := by
  have hwait := hf.waiting id (hfront ▸ List.mem_cons_self)
  have hnode := node_begin (hg.nodes_size ▸ hwait.1) hwait.2
  intro j hj
  rw [(sameShape_begin g id).size_eq] at hj
  rw [hnode, frontier_begin, hfront, List.tail_cons]
  by_cases hjd : j = id
  · rw [if_pos hjd]
    exact .inl rfl
  · rw [if_neg hjd]
    refine (hc j hj).imp_right fun hmem => ?_
    rw [hfront] at hmem
    exact (List.mem_cons.mp hmem).resolve_left hjd

/-! ### Interning -/

theorem node_intern (g : Graph) (s : State) (id : StateId) : (g.intern s).1.node id = g.node id := by
  unfold intern
  split
  · rfl
  · exact getD_push_default g.nodes id

theorem edges_intern (g : Graph) (s : State) : (g.intern s).1.edges = g.edges := by
  unfold intern
  split <;> rfl

theorem frontier_intern (g : Graph) (s : State) : (g.intern s).1.frontier = g.frontier := by
  unfold intern
  split <;> rfl

theorem size_intern_le (g : Graph) (s : State) : g.size ≤ (g.intern s).1.size := by
  unfold intern
  split
  · exact le_rfl
  · simp only [size, Cache.size_push]
    exact Nat.le_succ _

theorem lt_size_of_intern {g : Graph} {s : State} {id : StateId} (h : id < (g.intern s).1.size) :
    id < g.size ∨ id = (g.intern s).2 := by
  unfold intern at h ⊢
  split at h
  · exact .inl h
  · rw [size, Cache.size_push] at h
    exact Nat.lt_succ_iff_lt_or_eq.mp h

theorem grows_intern (g : Graph) (s : State) : Grows g (g.intern s).1 where
  size_le := size_intern_le g s
  state_eq id hid := by
    unfold intern
    split
    · rfl
    · have hne : id ≠ g.cache.size := Nat.ne_of_lt hid
      rw [state, state, Cache.state?_push, if_neg hne]
  edge_eq e a he := by rwa [edges_intern]
  eden_eq := by
    unfold intern
    split <;> rfl

theorem intern_spec {g : Graph} (hg : g.WellFormed) (s : State) :
    (g.intern s).2 < (g.intern s).1.size ∧ (g.intern s).1.state (g.intern s).2 = s := by
  unfold intern
  split
  case h_1 id hfind =>
    have hstate : g.cache.state? id = some s := (hg.faithful s id).mp hfind
    have hlt : id < g.size := by
      by_contra hge
      rw [Cache.state?_eq_none (Nat.le_of_not_lt hge)] at hstate
      exact absurd hstate (by simp)
    refine ⟨hlt, ?_⟩
    rw [state, hstate, Option.getD_some]
  case h_2 hfind =>
    refine ⟨?_, ?_⟩
    · rw [size, size, Cache.size_push]
      exact Nat.lt_succ_self _
    · have hid : g.size = g.cache.size := rfl
      simp only [state, Cache.state?_push, if_pos hid, Option.getD_some]

theorem WellFormed.intern {g : Graph} (hg : g.WellFormed) (s : State) :
    (g.intern s).1.WellFormed where
  faithful := by
    unfold Graph.intern
    split
    case h_1 => exact hg.faithful
    case h_2 hfind => exact hg.faithful.push hfind
  nodes_size := by
    unfold Graph.intern
    split
    case h_1 => exact hg.nodes_size
    case h_2 =>
      simp only [size, Cache.size_push, Array.size_push, hg.nodes_size]
  source_lt a ha := (hg.source_lt a (edges_intern g s ▸ ha)).trans_le (size_intern_le g s)
  target_lt a ha := (hg.target_lt a (edges_intern g s ▸ ha)).trans_le (size_intern_le g s)
  mem_outgoing id e := by
    rw [outgoing, node_intern, edges_intern]
    exact hg.mem_outgoing id e
  mem_incoming id e := by
    rw [incoming, node_intern, edges_intern]
    exact hg.mem_incoming id e
  nodup_incoming id := by
    rw [incoming, node_intern]
    exact hg.nodup_incoming id
  nodup_edges := by
    rw [edges_intern]
    exact hg.nodup_edges

theorem FrontierInOrder.intern {g : Graph} (hf : g.FrontierInOrder) (s : State) :
    (g.intern s).1.FrontierInOrder where
  onFrontier_iff id := by
    rw [node_intern, frontier_intern]
    exact hf.onFrontier_iff id
  nodup := by
    rw [frontier_intern]
    exact hf.nodup
  waiting id hid := by
    rw [frontier_intern] at hid
    rw [node_intern]
    exact ⟨(hf.waiting id hid).1.trans_le (size_intern_le g s), (hf.waiting id hid).2⟩

/-! ### Linking two states -/

/-- The graph with a new edge between two nodes. -/
def link (g : Graph) (a : Edge) : Graph :=
  (g.leave a.source a.target a.kind).enter g.edges.size a.target

theorem edges_link (g : Graph) (a : Edge) : (g.link a).edges = g.edges.push a := rfl

theorem getElem?_link (g : Graph) (a : Edge) (e : EdgeId) :
    (g.link a).edges[e]? = if e = g.edges.size then some a else g.edges[e]? := by
  rw [edges_link, Array.getElem?_push]

theorem node_link {g : Graph} {a : Edge} (hs : a.source < g.nodes.size) (ht : a.target < g.nodes.size)
    (id : StateId) :
    (g.link a).node id =
      { g.node id with
        out := if id = a.source then (g.node id).out.push g.edges.size else (g.node id).out
        into := if id = a.target then (g.node id).into.push g.edges.size else (g.node id).into } := by
  have hleave : ∀ id, (g.leave a.source a.target a.kind).nodes.getD id {} =
      { g.node id with
        out := if id = a.source then (g.node id).out.push g.edges.size else (g.node id).out } := by
    intro id
    rw [leave, getD_modify]
    by_cases h : id = a.source
    · simp [h, hs, node]
    · simp [h, node]
  rw [node, link, enter, getD_modify, hleave]
  by_cases h : id = a.target
  · simp [h, leave, ht]
  · simp [h]

theorem sameMarks_link {g : Graph} {a : Edge} (hs : a.source < g.nodes.size)
    (ht : a.target < g.nodes.size) : SameMarks g (g.link a) := by
  intro id
  rw [node_link hs ht]
  exact ⟨rfl, rfl, rfl⟩

theorem grows_link (g : Graph) (a : Edge) : Grows g (g.link a) where
  size_le := le_rfl
  state_eq _ _ := rfl
  edge_eq e b he := by rw [getElem?_link, if_neg (lt_of_getElem? he).ne, he]
  eden_eq := rfl

/-- A list of edge numbers that is extended by the number of a new edge exactly if the new edge has a
property lists the edges with the property again. -/
theorem mem_push_iff {g : Graph} {a : Edge} {list : Array EdgeId} {P : Edge → Prop} [DecidablePred P]
    (h : ∀ e : EdgeId, e ∈ list.toList ↔ ∃ b, g.edges[e]? = some b ∧ P b) (e : EdgeId) :
    e ∈ (if P a then list.push g.edges.size else list).toList ↔
      ∃ b, (g.link a).edges[e]? = some b ∧ P b := by
  have hlast : g.edges.size ∉ list.toList := by
    rw [h]
    rintro ⟨b, hb, -⟩
    exact absurd (lt_of_getElem? hb) (lt_irrefl _)
  rw [getElem?_link]
  by_cases he : e = g.edges.size
  · subst he
    by_cases hp : P a
    · simp [hp]
    · simp [hp, hlast]
  · rw [if_neg he, ← h]
    split
    · simp [he]
    · rfl

theorem WellFormed.link {g : Graph} (hg : g.WellFormed) {a : Edge} (hs : a.source < g.size)
    (ht : a.target < g.size) (hnew : a ∉ g.edges) : (g.link a).WellFormed where
  faithful := hg.faithful
  nodes_size := by simp [Graph.link, enter, leave, hg.nodes_size, size]
  source_lt b hb := by
    rcases Array.mem_push.mp hb with hb | rfl
    · exact hg.source_lt b hb
    · exact hs
  target_lt b hb := by
    rcases Array.mem_push.mp hb with hb | rfl
    · exact hg.target_lt b hb
    · exact ht
  mem_outgoing id e := by
    rw [outgoing, node_link (hg.nodes_size ▸ hs) (hg.nodes_size ▸ ht)]
    have hlist := mem_push_iff (a := a) (P := fun b => b.source = id) (hg.mem_outgoing id) e
    simpa only [eq_comm] using hlist
  mem_incoming id e := by
    rw [incoming, node_link (hg.nodes_size ▸ hs) (hg.nodes_size ▸ ht)]
    have hlist := mem_push_iff (a := a) (P := fun b => b.target = id) (hg.mem_incoming id) e
    simpa only [eq_comm] using hlist
  nodup_incoming id := by
    rw [incoming, node_link (hg.nodes_size ▸ hs) (hg.nodes_size ▸ ht)]
    have hlast : g.edges.size ∉ g.incoming id := by
      rw [hg.mem_incoming]
      rintro ⟨b, hb, -⟩
      exact absurd (lt_of_getElem? hb) (lt_irrefl _)
    dsimp only
    split
    · rw [Array.toList_push]
      exact List.nodup_append.mpr ⟨hg.nodup_incoming id, List.nodup_singleton _, by
        intro e he f hf
        rw [List.mem_singleton.mp hf]
        exact fun h => hlast (h ▸ he)⟩
    · exact hg.nodup_incoming id
  nodup_edges := by
    rw [edges_link, Array.toList_push]
    exact List.nodup_append.mpr ⟨hg.nodup_edges, List.nodup_singleton _, by
      intro b hb c hc
      rw [List.mem_singleton.mp hc]
      exact fun h => hnew (Array.mem_def.mpr (h ▸ hb))⟩

theorem FrontierInOrder.link {g : Graph} (hf : g.FrontierInOrder) (hg : g.WellFormed) {a : Edge}
    (hs : a.source < g.size) (ht : a.target < g.size) : (g.link a).FrontierInOrder where
  onFrontier_iff id := by
    rw [node_link (hg.nodes_size ▸ hs) (hg.nodes_size ▸ ht)]
    exact hf.onFrontier_iff id
  nodup := hf.nodup
  waiting id hid := by
    rw [node_link (hg.nodes_size ▸ hs) (hg.nodes_size ▸ ht)]
    exact hf.waiting id hid

/-- An edge between two nodes is added unless it is there. -/
theorem addEdge_cases {g : Graph} (hg : g.WellFormed) {src dst : StateId} (kind : EdgeKind)
    (hs : src < g.size) (hd : dst < g.size) :
    (⟨src, dst, kind⟩ ∈ g.edges ∧ ∃ e, g.addEdge src dst kind = (g, .present e)) ∨
      (⟨src, dst, kind⟩ ∉ g.edges ∧
        g.addEdge src dst kind = (g.link ⟨src, dst, kind⟩, .added g.edges.size)) := by
  have hsrc : g.hasNode src = true := by simpa [hasNode, hg.nodes_size] using hs
  have hdst : g.hasNode dst = true := by simpa [hasNode, hg.nodes_size] using hd
  rw [addEdge, if_pos hsrc]
  cases hfind : g.findEdge? src dst kind with
  | some e =>
    have hmem := Array.mem_of_find?_eq_some hfind
    have hsame := Array.find?_some hfind
    obtain ⟨a, ha, hsource⟩ := (hg.mem_outgoing src e).mp (Array.mem_def.mp hmem)
    rw [edge_eq ha] at hsame
    have hkind : a.target = dst ∧ a.kind = kind := by simpa using hsame
    have hedge : a = ⟨src, dst, kind⟩ := Edge.ext hsource hkind.1 hkind.2
    exact .inl ⟨hedge ▸ Array.mem_of_getElem? ha, e, rfl⟩
  | none =>
    refine .inr ⟨fun hmem => ?_, by simp only [hdst, if_true]; rfl⟩
    obtain ⟨e, he⟩ := Array.mem_iff_getElem?.mp hmem
    have hlisted : e ∈ (g.node src).out := Array.mem_def.mpr ((hg.mem_outgoing src e).mpr ⟨_, he, rfl⟩)
    have hnone := Array.find?_eq_none.mp hfind e hlisted
    rw [edge_eq he] at hnone
    simp at hnone

/-! ### The start -/

theorem wellFormed_empty : ({} : Graph).WellFormed where
  faithful := Cache.faithful_empty
  nodes_size := rfl
  source_lt a ha := absurd ha (Array.not_mem_empty a)
  target_lt a ha := absurd ha (Array.not_mem_empty a)
  mem_outgoing id e := by simp [outgoing, node]
  mem_incoming id e := by simp [incoming, node]
  nodup_incoming id := by simp [incoming, node]
  nodup_edges := List.nodup_nil

theorem WellFormed.withEden {g : Graph} (hg : g.WellFormed) (id : StateId) :
    ({ g with eden := id } : Graph).WellFormed :=
  ⟨hg.faithful, hg.nodes_size, hg.source_lt, hg.target_lt, hg.mem_outgoing, hg.mem_incoming,
    hg.nodup_incoming, hg.nodup_edges⟩

theorem FrontierInOrder.withEden {g : Graph} (hf : g.FrontierInOrder) (id : StateId) :
    ({ g with eden := id } : Graph).FrontierInOrder :=
  ⟨hf.onFrontier_iff, hf.nodup, hf.waiting⟩

theorem frontierInOrder_empty : ({} : Graph).FrontierInOrder where
  onFrontier_iff id := by simp [node]
  nodup := List.nodup_nil
  waiting id hid := absurd hid List.not_mem_nil

/-- The graph before the start state is put on the frontier. -/
def seed (s : State) : Graph := { (({} : Graph).intern s).1 with eden := (({} : Graph).intern s).2 }

theorem start_eq (s : State) : start s = (seed s).pushFrontier (seed s).eden := rfl

theorem wellFormed_seed (s : State) : (seed s).WellFormed := (wellFormed_empty.intern s).withEden _

theorem wellFormed_start (s : State) : (start s).WellFormed :=
  (sameShape_pushFrontier _ _).wellFormed (wellFormed_seed s)

theorem seed_spec (s : State) : (seed s).eden < (seed s).size ∧ (seed s).state (seed s).eden = s :=
  intern_spec wellFormed_empty s

theorem eden_start_spec (s : State) :
    (start s).eden < (start s).size ∧ (start s).state (start s).eden = s := by
  have hshape := sameShape_pushFrontier (seed s) (seed s).eden
  rw [start_eq, hshape.size_eq, hshape.eden_eq, hshape.state_eq]
  exact seed_spec s

/-- The start state is the only one. -/
theorem eq_eden_of_lt_start {s : State} {id : StateId} (h : id < (start s).size) :
    id = (start s).eden := by
  have hshape := sameShape_pushFrontier (seed s) (seed s).eden
  rw [start_eq, hshape.size_eq] at h
  rw [start_eq, hshape.eden_eq]
  exact (lt_size_of_intern h).resolve_left (Nat.not_lt_zero id)

theorem edges_start (s : State) : (start s).edges = #[] := by
  rw [start_eq, (sameShape_pushFrontier _ _).edges_eq]
  exact edges_intern {} s

/-- Nothing is recorded about the start state yet. -/
theorem marks_start (s : State) (id : StateId) :
    ((start s).node id).kind = .normal ∧ ((start s).node id).explored = false ∧
      ((start s).node id).returns = {} := by
  have hmarks := sameMarks_pushFrontier (seed s) (seed s).eden id
  rw [← start_eq, show (seed s).node id = {} from node_intern {} s id] at hmarks
  exact hmarks

theorem frontierInOrder_start (s : State) : (start s).FrontierInOrder :=
  ((frontierInOrder_empty.intern s).withEden _).pushFrontier (wellFormed_seed s) (seed_spec s).1

theorem covered_start (s : State) : (start s).Covered := by
  intro id hid
  have hseed : (seed s).FrontierInOrder := (frontierInOrder_empty.intern s).withEden _
  rw [eq_eden_of_lt_start hid, start_eq, (sameShape_pushFrontier _ _).eden_eq]
  have heden := explored_or_mem_pushFrontier hseed (seed s).eden
  rw [← (sameMarks_pushFrontier (seed s) (seed s).eden (seed s).eden).2.1] at heden
  exact heden

end Graph

end StackDepth
