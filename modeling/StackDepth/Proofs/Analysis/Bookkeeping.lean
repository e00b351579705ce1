import Mathlib
import StackDepth.Proofs.Analysis.Propagation
import StackDepth.Proofs.Graph.Counters

/-!
# The books of an exploration

The analysis keeps lists of what waits, marks in the nodes, and counters of both. They agree with each
other after every operation, whether it succeeds or fails halfway: a state is taken from the frontier and
marked as explored before its instruction is looked up, and an edge is counted and queued when it is
added.

* `Exploration.Balanced`: the lists, the marks and the counters agree;
* `Exploration.Continues`: what all operations have in common that explore no state;
* `Exploration.Balanced.addEdge`, `Exploration.Balanced.walk`: adding edges and walking backwards;
* `Exploration.Balanced.explore`: exploring a state.
-/

namespace StackDepth

namespace Exploration

/-- The lists of what waits, the marks of the nodes and the counters agree. -/
structure Balanced (x : Exploration) : Prop where
  /-- The graph is well-formed. -/
  wellFormed : x.graph.WellFormed
  /-- The frontier lists the states that wait. -/
  frontier : x.graph.FrontierInOrder
  /-- Every state is explored or waits. -/
  covered : x.graph.Covered
  /-- The counters of the graph count. -/
  counted : x.graph.Counted
  /-- Only explored states are marked. -/
  marked : ∀ id, (x.graph.node id).kind ≠ .normal → (x.graph.node id).explored = true
  /-- No edge waits twice. -/
  newEdges_nodup : x.newEdges.Nodup
  /-- Only edges into explored states wait. -/
  newEdges_explored : ∀ e ∈ x.newEdges,
    e < x.graph.edges.size ∧ (x.graph.node (x.graph.edge e).target).explored = true
  /-- No return state waits twice. -/
  newReturns_nodup : x.newReturns.Nodup
  /-- Only explored states that are marked wait as return states. -/
  newReturns_marked : ∀ r ∈ x.newReturns,
    (x.graph.node r).explored = true ∧ (x.graph.node r).kind ≠ .normal
  /-- The number of return states that wait. -/
  pendingReturns : x.pendingReturns = x.newReturns.length
  /-- The number of edges that wait. -/
  pendingEdges : x.pendingEdges = x.newEdges.length
  /-- The number of states that end a call. -/
  retCount : x.retCount = x.graph.tally (fun n => n.kind = .ret)
  /-- The number of states that end an interrupt. -/
  retiCount : x.retiCount = x.graph.tally (fun n => n.kind = .reti)

theorem balanced_start (s : State) : (Exploration.start s).Balanced := by
  have hmarks := Graph.marks_start s
  have htally : ∀ k, k ≠ .normal → (Graph.start s).tally (fun n => n.kind = k) = 0 := by
    intro k hk
    refine Finset.card_eq_zero.mpr (Finset.filter_eq_empty_iff.mpr fun id _ hid => hk ?_)
    exact hid.symm.trans (hmarks id).1
  exact
    { wellFormed := Graph.wellFormed_start s
      frontier := Graph.frontierInOrder_start s
      covered := Graph.covered_start s
      counted := Graph.counted_start s
      marked := fun id hid => absurd (hmarks id).1 hid
      newEdges_nodup := List.nodup_nil
      newEdges_explored := fun e he => absurd he List.not_mem_nil
      newReturns_nodup := List.nodup_nil
      newReturns_marked := fun r hr => absurd hr List.not_mem_nil
      pendingReturns := rfl
      pendingEdges := rfl
      retCount := (htally .ret (by decide)).symm
      retiCount := (htally .reti (by decide)).symm }

theorem Balanced.note {x : Exploration} (h : x.Balanced) (e : Event) : (x.note e).Balanced :=
  ⟨h.wellFormed, h.frontier, h.covered, h.counted, h.marked, h.newEdges_nodup, h.newEdges_explored,
    h.newReturns_nodup, h.newReturns_marked, h.pendingReturns, h.pendingEdges, h.retCount, h.retiCount⟩

theorem Balanced.lt_of_explored {x : Exploration} (h : x.Balanced) {id : StateId}
    (hid : (x.graph.node id).explored = true) : id < x.graph.size := by
  by_contra hge
  rw [Graph.node_eq_default (h.wellFormed.nodes_size ▸ Nat.le_of_not_lt hge)] at hid
  exact Bool.false_ne_true hid

/-! ### Adding to an exploration -/

/-- What every operation does that explores no state: the graph grows, the marks stay, and the edges
that begin to wait are new ones. -/
structure Continues (x y : Exploration) : Prop where
  /-- What waits still agrees with the marks and the counters. -/
  balanced : y.Balanced
  /-- States and edges are only added. -/
  grows : x.graph.Grows y.graph
  /-- No state is explored. -/
  explored_eq : ∀ id, (y.graph.node id).explored = (x.graph.node id).explored
  /-- No state is marked. -/
  kind_eq : ∀ id, (y.graph.node id).kind = (x.graph.node id).kind
  /-- No return state begins to wait. -/
  newReturns_eq : y.newReturns = x.newReturns
  /-- The edges that begin to wait are new ones. -/
  newEdges_eq : ∃ es, y.newEdges = es ++ x.newEdges ∧ es.Nodup ∧
    ∀ e ∈ es, x.graph.edges.size ≤ e ∧ e < y.graph.edges.size

theorem Balanced.continues {x : Exploration} (h : x.Balanced) : Continues x x :=
  ⟨h, .refl _, fun _ => rfl, fun _ => rfl, rfl, [], rfl, List.nodup_nil, by simp⟩

theorem Balanced.continues_note {x : Exploration} (h : x.Balanced) (e : Event) :
    Continues x (x.note e) :=
  ⟨h.note e, .refl _, fun _ => rfl, fun _ => rfl, rfl, [], rfl, List.nodup_nil, by simp⟩

theorem Continues.trans {x y z : Exploration} (hxy : Continues x y) (hyz : Continues y z) :
    Continues x z := by
  obtain ⟨es, hes, hnodup, hnew⟩ := hxy.newEdges_eq
  obtain ⟨fs, hfs, hnodup', hnew'⟩ := hyz.newEdges_eq
  have hle := hxy.grows.edges_size_le
  have hle' := hyz.grows.edges_size_le
  refine ⟨hyz.balanced, hxy.grows.trans hyz.grows,
    fun id => (hyz.explored_eq id).trans (hxy.explored_eq id),
    fun id => (hyz.kind_eq id).trans (hxy.kind_eq id), hyz.newReturns_eq.trans hxy.newReturns_eq,
    fs ++ es, ?_, ?_, ?_⟩
  · rw [hfs, hes, List.append_assoc]
  · refine List.nodup_append.mpr ⟨hnodup', hnodup, fun f hf e he heq => ?_⟩
    exact absurd ((hnew e he).2.trans_le (hnew' f hf).1) (heq ▸ lt_irrefl e)
  · intro e he
    rcases List.mem_append.mp he with he | he
    · exact ⟨hle.trans (hnew' e he).1, (hnew' e he).2⟩
    · exact ⟨(hnew e he).1, (hnew e he).2.trans_le hle'⟩

/-- Adding an edge moves no counter but those of the graph and of the edges that wait. -/
theorem addEdge_pending (x : Exploration) (src : StateId) (kind : EdgeKind) (s : State) :
    (x.addEdge src kind s).pendingReturns = x.pendingReturns ∧
      (x.addEdge src kind s).retCount = x.retCount ∧
      (x.addEdge src kind s).retiCount = x.retiCount ∧
      (x.addEdge src kind s).pendingEdges + x.newEdges.length =
        x.pendingEdges + (x.addEdge src kind s).newEdges.length := by
  have hschedule : ∀ (y : Exploration) (e : EdgeId) (t : StateId),
      (y.schedule e t).pendingReturns = y.pendingReturns ∧ (y.schedule e t).retCount = y.retCount ∧
        (y.schedule e t).retiCount = y.retiCount ∧
        (y.schedule e t).pendingEdges + y.newEdges.length =
          y.pendingEdges + (y.schedule e t).newEdges.length := by
    intro y e t
    by_cases hexp : (y.graph.node t).explored = true
    · rw [schedule, if_pos hexp]
      exact ⟨rfl, rfl, rfl, Nat.succ_add_eq_add_succ _ _⟩
    · rw [schedule, if_neg hexp]
      exact ⟨rfl, rfl, rfl, rfl⟩
  unfold addEdge
  dsimp only
  split
  · exact hschedule _ _ _
  · exact ⟨rfl, rfl, rfl, rfl⟩

/-- The counters of the graph, and the edge that begins to wait if there is one. -/
theorem addEdge_queued {x : Exploration} (hx : x.Balanced) {src : StateId}
    (hsrc : src < x.graph.size) (kind : EdgeKind) (s : State) :
    (x.addEdge src kind s).graph.Counted ∧
      ((x.addEdge src kind s).newEdges = x.newEdges ∨
        (x.addEdge src kind s).newEdges = x.graph.edges.size :: x.newEdges ∧
          x.graph.edges.size < (x.addEdge src kind s).graph.edges.size ∧
          ((x.addEdge src kind s).graph.node
            ((x.addEdge src kind s).graph.edge x.graph.edges.size).target).explored = true) := by
  have hinterned := interned_intern hx.wellFormed hx.frontier s
  have hcounted := hx.counted.intern hx.wellFormed s
  generalize hintern : x.graph.intern s = p at hinterned hcounted
  obtain ⟨g, t⟩ := p
  have hlt : src < g.size := hsrc.trans_le hinterned.grows.size_le
  have hlink : (g.link ⟨src, t, kind⟩).Counted :=
    hcounted.link hinterned.wellFormed hlt hinterned.target.1
  obtain ⟨-, hcases⟩ := addEdge_cases hx.wellFormed hsrc kind s hintern rfl
  rcases hcases with ⟨-, hgraph, hedges⟩ | ⟨-, hexp, hgraph, hedges⟩ | ⟨hnew, -, hgraph, hedges⟩
  · rw [hgraph]
    exact ⟨hcounted, .inl hedges⟩
  · have hsize := hinterned.edges_eq
    rw [hgraph, hedges, ← hsize]
    refine ⟨hlink, .inr ⟨rfl, ?_, ?_⟩⟩
    · rw [Graph.edges_link, Array.size_push]
      exact Nat.lt_succ_self _
    · have hedge : (g.link ⟨src, t, kind⟩).edge g.edges.size = ⟨src, t, kind⟩ :=
        Graph.edge_eq (by rw [Graph.getElem?_link, if_pos rfl])
      rw [hedge, (hinterned.marks_link hlt t).2.1, ← hinterned.node_eq t, hexp]
  · rw [hgraph]
    exact ⟨hlink.pushFrontier (hinterned.wellFormed.link hlt hinterned.target.1 hnew) t, .inl hedges⟩

/-- Marks that are the same in a graph that has grown are counted the same. -/
theorem Balanced.tally_kind {x : Exploration} (hx : x.Balanced) {g : Graph}
    (hgrows : x.graph.Grows g) (hkind : ∀ id, (g.node id).kind = (x.graph.node id).kind)
    {k : StateKind} (hk : k ≠ .normal) :
    g.tally (fun n => n.kind = k) = x.graph.tally (fun n => n.kind = k) :=
  Graph.tally_eq_of_iff hx.wellFormed.nodes_size hgrows.size_le (Ne.symm hk) fun id => by rw [hkind]

theorem Balanced.addEdge {x : Exploration} (hx : x.Balanced) {src : StateId}
    (hsrc : src < x.graph.size) (kind : EdgeKind) (s : State) :
    Continues x (x.addEdge src kind s) := by
  obtain ⟨hext, t, hjoined, -⟩ := extends_addEdge hx.wellFormed hx.frontier hsrc kind s
  obtain ⟨hcounted, hqueued⟩ := addEdge_queued hx hsrc kind s
  obtain ⟨hreturns, hret, hreti, hpending⟩ := addEdge_pending x src kind s
  generalize x.addEdge src kind s = y at hext hjoined hcounted hqueued hreturns hret hreti hpending ⊢
  have hexp := fun id => (hext.marks id).2.1
  have hkind := fun id => (hext.marks id).1
  have hold : ∀ e ∈ x.newEdges,
      e < y.graph.edges.size ∧ (y.graph.node (y.graph.edge e).target).explored = true := by
    intro e he
    obtain ⟨hlt, htarget⟩ := hx.newEdges_explored e he
    have hsame : y.graph.edge e = x.graph.edge e :=
      Graph.edge_eq (hext.grows.edge_eq e _ (Graph.getElem?_of_lt hlt))
    rw [hsame, hexp]
    exact ⟨hlt.trans_le hext.grows.edges_size_le, htarget⟩
  have hnew : y.newEdges.Nodup ∧ (∀ e ∈ y.newEdges,
        e < y.graph.edges.size ∧ (y.graph.node (y.graph.edge e).target).explored = true) ∧
      ∃ es, y.newEdges = es ++ x.newEdges ∧ es.Nodup ∧
        ∀ e ∈ es, x.graph.edges.size ≤ e ∧ e < y.graph.edges.size := by
    rcases hqueued with heq | ⟨heq, hlt, htarget⟩
    · rw [heq]
      exact ⟨hx.newEdges_nodup, hold, [], rfl, List.nodup_nil, by simp⟩
    · have hfresh : x.graph.edges.size ∉ x.newEdges :=
        fun hmem => absurd (hx.newEdges_explored _ hmem).1 (lt_irrefl _)
      rw [heq]
      refine ⟨List.nodup_cons.mpr ⟨hfresh, hx.newEdges_nodup⟩, fun e he => ?_,
        [x.graph.edges.size], rfl, List.nodup_singleton _, fun e he => ?_⟩
      · rcases List.mem_cons.mp he with rfl | he
        · exact ⟨hlt, htarget⟩
        · exact hold e he
      · rw [List.mem_singleton.mp he]
        exact ⟨le_rfl, hlt⟩
  refine ⟨?_, hext.grows, hexp, hkind, hext.newReturns_eq, hnew.2.2⟩
  exact
    { wellFormed := hjoined.wellFormed
      frontier := hjoined.frontier
      covered := hjoined.covered hx.covered
      counted := hcounted
      marked := fun id hid => by
        rw [hkind] at hid
        rw [hexp]
        exact hx.marked id hid
      newEdges_nodup := hnew.1
      newEdges_explored := hnew.2.1
      newReturns_nodup := by
        rw [hext.newReturns_eq]
        exact hx.newReturns_nodup
      newReturns_marked := fun r hr => by
        rw [hext.newReturns_eq] at hr
        rw [hexp, hkind]
        exact hx.newReturns_marked r hr
      pendingReturns := by rw [hreturns, hx.pendingReturns, hext.newReturns_eq]
      pendingEdges := by
        have hbefore := hx.pendingEdges
        omega
      retCount := by rw [hret, hx.retCount, hx.tally_kind hext.grows hkind (by decide)]
      retiCount := by rw [hreti, hx.retiCount, hx.tally_kind hext.grows hkind (by decide)] }

/-- Adding edges one after the other. -/
theorem Balanced.foldl {α : Type} {add : Exploration → α → Exploration} (size : Nat)
    (hadd : ∀ y a, y.Balanced → size ≤ y.graph.size → Continues y (add y a)) {x : Exploration}
    (hx : x.Balanced) (hsize : size ≤ x.graph.size) (as : List α) :
    Continues x (as.foldl add x) := by
  induction as generalizing x with
  | nil => exact hx.continues
  | cons a as ih =>
    have hfirst := hadd x a hx hsize
    exact hfirst.trans (ih hfirst.balanced (hsize.trans hfirst.grows.size_le))

theorem Balanced.stitch {x : Exploration} (hx : x.Balanced) (code : Code) {a : Edge}
    (ha : a.source < x.graph.size) (rets : List StateId) :
    Continues x (x.stitch code a rets).1 := by
  unfold Exploration.stitch
  split
  · exact hx.continues
  · refine Balanced.foldl (a.source + 1) (fun y r hy hsize => ?_) hx ha rets
    exact hy.addEdge hsize _ _

/-! ### Walks -/

/-- Nothing is counted anew where states, edges, marks and the frontier are the same. -/
theorem Balanced.withGraph {x : Exploration} (hx : x.Balanced) {g : Graph}
    (hshape : x.graph.SameShape g) (hcounted : g.Counted) (hfrontier : g.frontier = x.graph.frontier)
    (hsame : ∀ id, (g.node id).explored = (x.graph.node id).explored ∧
      (g.node id).kind = (x.graph.node id).kind ∧
      (g.node id).onFrontier = (x.graph.node id).onFrontier) :
    ({ x with graph := g } : Exploration).Balanced := by
  have hkind := fun id => (hsame id).2.1
  exact
    { wellFormed := hshape.wellFormed hx.wellFormed
      frontier := by
        refine ⟨fun j => ?_, ?_, fun j hj => ?_⟩
        · rw [(hsame j).2.2, hfrontier]
          exact hx.frontier.onFrontier_iff j
        · rw [hfrontier]
          exact hx.frontier.nodup
        · rw [hshape.size_eq, (hsame j).1]
          exact hx.frontier.waiting j (hfrontier ▸ hj)
      covered := fun j hj => by
        rw [(hsame j).1, hfrontier]
        exact hx.covered j (hshape.size_eq ▸ hj)
      counted := hcounted
      marked := fun j hj => by
        rw [(hsame j).1]
        exact hx.marked j (hkind j ▸ hj)
      newEdges_nodup := hx.newEdges_nodup
      newEdges_explored := fun e he => by
        dsimp only
        rw [(hsame _).1, Graph.edge, hshape.edges_eq]
        exact hx.newEdges_explored e he
      newReturns_nodup := hx.newReturns_nodup
      newReturns_marked := fun r hr => by
        rw [(hsame r).1, hkind]
        exact hx.newReturns_marked r hr
      pendingReturns := hx.pendingReturns
      pendingEdges := hx.pendingEdges
      retCount := hx.retCount.trans (hx.tally_kind hshape.grows hkind (by decide)).symm
      retiCount := hx.retiCount.trans (hx.tally_kind hshape.grows hkind (by decide)).symm }

theorem Balanced.absorb {x : Exploration} (hx : x.Balanced) {id : StateId} (hid : id < x.graph.size)
    (rets : List StateId) : Continues x (x.absorb id rets).1 := by
  have hnode : id < x.graph.nodes.size := hx.wellFormed.nodes_size ▸ hid
  have h : Absorbs x (x.absorb id rets).1 ⟨id, rets⟩ (x.absorb id rets).2 := absorbs_of_absorb hnode rfl
  have hbalanced : (x.absorb id rets).1.Balanced :=
    hx.withGraph h.shape (hx.counted.setReturns hnode _) h.frontier_eq
      fun j => ⟨h.explored_eq j, h.kind_eq j, h.onFrontier_eq j⟩
  exact ⟨hbalanced, h.shape.grows, h.explored_eq, h.kind_eq, h.newReturns_eq, [], h.newEdges_eq,
    List.nodup_nil, by simp⟩

/-- The items that a walk gets are at nodes. -/
theorem Balanced.walkEdges {x : Exploration} (hx : x.Balanced) (code : Code) (delta : List StateId)
    {es : List EdgeId} (hes : ∀ e ∈ es, e < x.graph.edges.size) {work : List WalkItem}
    (hwork : ∀ item ∈ work, item.node < x.graph.size) :
    Continues x (walkEdges code delta es x work).1 ∧
      ∀ item ∈ (walkEdges code delta es x work).2.1,
        item.node < (walkEdges code delta es x work).1.graph.size := by
  induction es generalizing x work with
  | nil => exact ⟨hx.continues, hwork⟩
  | cons e es ih =>
    have hedge := Graph.getElem?_of_lt (hes e List.mem_cons_self)
    have hsource := hx.wellFormed.source_lt _ (Array.mem_of_getElem? hedge)
    rw [Exploration.walkEdges]
    split
    · have hstitch := hx.stitch code hsource delta
      split
      · next y heq =>
        rw [heq] at hstitch
        obtain ⟨hcont, hitems⟩ := ih hstitch.balanced
          (fun f hf => (hes f (List.mem_cons_of_mem _ hf)).trans_le hstitch.grows.edges_size_le)
          (fun item hitem => (hwork item hitem).trans_le hstitch.grows.size_le)
        exact ⟨hstitch.trans hcont, hitems⟩
      · next y error heq =>
        rw [heq] at hstitch
        exact ⟨hstitch, fun item hitem => (hwork item hitem).trans_le hstitch.grows.size_le⟩
    · refine ih hx (fun f hf => hes f (List.mem_cons_of_mem _ hf)) fun item hitem => ?_
      rcases List.mem_cons.mp hitem with rfl | hitem
      · exact hsource
      · exact hwork item hitem

theorem Balanced.walk {x : Exploration} (hx : x.Balanced) (code : Code) (fuel : Nat)
    {work : List WalkItem} (hwork : ∀ item ∈ work, item.node < x.graph.size) :
    Continues x (walk code fuel work x).1 := by
  induction fuel generalizing x work with
  | zero => exact hx.continues
  | succ fuel ih =>
    cases work with
    | nil => exact hx.continues
    | cons item work =>
      have habsorb := hx.absorb (hwork item List.mem_cons_self) item.delta
      rw [Exploration.walk]
      generalize x.absorb item.node item.delta = p at habsorb ⊢
      obtain ⟨y, fresh⟩ := p
      have hrest : ∀ i ∈ work, i.node < y.graph.size := fun i hi =>
        (hwork i (List.mem_cons_of_mem _ hi)).trans_le habsorb.grows.size_le
      cases fresh with
      | nil => exact habsorb.trans (ih habsorb.balanced hrest)
      | cons r rs =>
        have hincoming : ∀ e ∈ y.graph.incoming item.node, e < y.graph.edges.size := by
          intro e he
          obtain ⟨a, ha, -⟩ := (habsorb.balanced.wellFormed.mem_incoming _ e).mp he
          exact Graph.lt_of_getElem? ha
        obtain ⟨hcont, hitems⟩ := habsorb.balanced.walkEdges code (r :: rs) hincoming hrest
        dsimp only
        split
        · next z work' heq =>
          rw [heq] at hcont hitems
          exact (habsorb.trans hcont).trans (ih hcont.balanced hitems)
        · next z work' error heq =>
          rw [heq] at hcont
          exact habsorb.trans hcont

theorem Balanced.propagate {x : Exploration} (hx : x.Balanced) (code : Code) {id : StateId}
    (hid : id < x.graph.size) (rets : List StateId) : Continues x (x.propagate code id rets).1 :=
  hx.walk code walkBound fun item hitem => by rwa [List.mem_singleton.mp hitem]

/-- Taking the return set of the target of an edge over the edge. -/
theorem Balanced.propagateEdge {x : Exploration} (hx : x.Balanced) (code : Code) {e : EdgeId}
    (he : e < x.graph.edges.size) : Continues x (x.propagateEdge code e).1 := by
  have hsource : (x.graph.edge e).source < x.graph.size :=
    hx.wellFormed.source_lt _ (Array.mem_of_getElem? (Graph.getElem?_of_lt he))
  rw [propagateEdge_eq, serviceOfEdge]
  split
  · exact hx.continues
  · have hnoted := hx.continues_note (.propagatingEdge e (x.graph.edge e).kind
      (x.graph.node (x.graph.edge e).target).returns.size)
    split
    · exact hnoted.trans (hnoted.balanced.stitch code hsource _)
    · exact hnoted.trans (hnoted.balanced.propagate code hsource _)

/-! ### Exploring a state -/

/-- A state that is taken from the frontier is marked as explored before anything else. -/
theorem Balanced.begin {x : Exploration} (hx : x.Balanced) {id : StateId} {rest : List StateId}
    (hfront : x.graph.frontier = id :: rest) :
    ({ x with graph := x.graph.begin id } : Exploration).Balanced := by
  have hwait := hx.frontier.waiting id (hfront ▸ List.mem_cons_self)
  have hshape := x.graph.sameShape_begin id
  have hkind := x.graph.kind_begin id
  have hexp : ∀ j, (x.graph.node j).explored = true → ((x.graph.begin id).node j).explored = true :=
    fun _ => Graph.explored_begin (hx.wellFormed.nodes_size ▸ hwait.1) hwait.2
  exact
    { wellFormed := hshape.wellFormed hx.wellFormed
      frontier := hx.frontier.begin hx.wellFormed hfront
      covered := hx.covered.begin hx.frontier hx.wellFormed hfront
      counted := hx.counted.begin hx.wellFormed hx.frontier hfront
      marked := fun j hj => hexp j (hx.marked j (hkind j ▸ hj))
      newEdges_nodup := hx.newEdges_nodup
      newEdges_explored := fun e he => by
        obtain ⟨hlt, htarget⟩ := hx.newEdges_explored e he
        dsimp only
        rw [Graph.edge, hshape.edges_eq]
        exact ⟨hlt, hexp _ htarget⟩
      newReturns_nodup := hx.newReturns_nodup
      newReturns_marked := fun r hr => by
        obtain ⟨hr, hmark⟩ := hx.newReturns_marked r hr
        exact ⟨hexp r hr, by rwa [hkind]⟩
      pendingReturns := hx.pendingReturns
      pendingEdges := hx.pendingEdges
      retCount := hx.retCount.trans (hx.tally_kind hshape.grows hkind (by decide)).symm
      retiCount := hx.retiCount.trans (hx.tally_kind hshape.grows hkind (by decide)).symm }

/-- A mark moves exactly one of the two numbers. -/
theorem Balanced.tally_setKind {x : Exploration} (hx : x.Balanced) {id : StateId}
    (hid : id < x.graph.size) (hfresh : (x.graph.node id).kind = .normal) (k : StateKind) {l : StateKind}
    (hl : l ≠ .normal) : (x.graph.setKind id k).tally (fun n => n.kind = l) =
      x.graph.tally (fun n => n.kind = l) + if k = l then 1 else 0 := by
  have hkind := Graph.kind_setKind (hx.wellFormed.nodes_size ▸ hid) k
  have hshape := x.graph.sameShape_setKind id k
  by_cases hkl : k = l
  · subst hkl
    rw [if_pos rfl]
    refine Graph.tally_eq_succ hshape.size_eq hid (fun h => hl (h.symm.trans hfresh))
      (by rw [hkind, if_pos rfl]) fun j hj => ?_
    rw [hkind, if_neg hj]
  · rw [if_neg hkl, Nat.add_zero]
    refine Graph.tally_eq_of_iff hx.wellFormed.nodes_size hshape.size_eq.ge (Ne.symm hl) fun j => ?_
    rw [hkind]
    split
    · next hj =>
      rw [hj, hfresh]
      exact ⟨fun h => absurd h hkl, fun h => absurd h.symm hl⟩
    · rfl

/-- A return state is marked, counted and queued together. -/
theorem Balanced.markReturn {x : Exploration} (hx : x.Balanced) {id : StateId}
    (hexp : (x.graph.node id).explored = true) (hfresh : (x.graph.node id).kind = .normal)
    {k : StateKind} (hk : k ≠ .normal) : (x.markReturn id k).Balanced := by
  have hid := hx.lt_of_explored hexp
  have hid' : id < x.graph.nodes.size := hx.wellFormed.nodes_size ▸ hid
  have hsame := x.graph.explored_setKind id k
  have hkind := Graph.kind_setKind hid' k
  exact
    { wellFormed := (x.graph.sameShape_setKind id k).wellFormed hx.wellFormed
      frontier := hx.frontier.setKind id k
      covered := fun j hj => hsame j ▸ hx.covered j hj
      counted := hx.counted.setKind hid' k
      marked := fun j hj => by
        change ((x.graph.setKind id k).node j).kind ≠ .normal at hj
        change ((x.graph.setKind id k).node j).explored = true
        rw [hkind] at hj
        rw [hsame]
        split at hj
        · next heq => rwa [heq]
        · exact hx.marked j hj
      newEdges_nodup := hx.newEdges_nodup
      newEdges_explored := fun e he => by
        change e < x.graph.edges.size ∧
          ((x.graph.setKind id k).node (x.graph.edge e).target).explored = true
        rw [hsame]
        exact hx.newEdges_explored e he
      newReturns_nodup :=
        List.nodup_cons.mpr ⟨fun h => (hx.newReturns_marked id h).2 hfresh, hx.newReturns_nodup⟩
      newReturns_marked := fun r hr => by
        change ((x.graph.setKind id k).node r).explored = true ∧
          ((x.graph.setKind id k).node r).kind ≠ .normal
        rw [hsame, hkind]
        rcases List.mem_cons.mp hr with rfl | hr
        · exact ⟨hexp, by rwa [if_pos rfl]⟩
        · obtain ⟨hr, hmark⟩ := hx.newReturns_marked r hr
          refine ⟨hr, ?_⟩
          split
          · exact hk
          · exact hmark
      pendingReturns := congrArg (· + 1) hx.pendingReturns
      pendingEdges := hx.pendingEdges
      retCount := by
        change (if k = .reti then x.retCount else x.retCount + 1) =
          (x.graph.setKind id k).tally (fun n => n.kind = .ret)
        rw [hx.tally_setKind hid hfresh k (by decide), ← hx.retCount]
        cases k <;> simp at hk ⊢
      retiCount := by
        change (if k = .reti then x.retiCount + 1 else x.retiCount) =
          (x.graph.setKind id k).tally (fun n => n.kind = .reti)
        rw [hx.tally_setKind hid hfresh k (by decide), ← hx.retiCount]
        cases k <;> simp at hk ⊢ }

/-- What follows from the effect of an instruction are edges, or the mark of a return state. -/
theorem Balanced.apply {x : Exploration} (hx : x.Balanced) (code : Code) {id : StateId}
    (hid : id < x.graph.size) (t : State) (e : Effect) :
    Continues x (x.apply code id t e).1 ∨
      ∃ k, k ≠ .normal ∧ (x.apply code id t e).1 = x.markReturn id k := by
  have htargets : ∀ kind targets, Continues x (x.addTargets id kind t targets) := by
    intro kind targets
    exact Balanced.foldl (id + 1) (fun y a hy hsize => hy.addEdge hsize _ _) hx hid targets
  cases e with
  | next taken =>
    exact .inl (Balanced.foldl (id + 1) (fun y a hy hsize => hy.addEdge hsize _ _) hx hid _)
  | push => exact .inl (hx.addEdge hid _ _)
  | pop => exact .inl (hx.addEdge hid _ _)
  | halt => exact .inl hx.continues
  | call a => exact .inl (hx.addEdge hid _ _)
  | indirectCall =>
    rw [Exploration.apply]
    split
    · exact .inl (htargets _ _)
    · exact .inl hx.continues
  | indirectJump =>
    rw [Exploration.apply]
    split
    · exact .inl (htargets _ _)
    · exact .inl hx.continues
  | ret => exact .inr ⟨.ret, by decide, rfl⟩
  | reti => exact .inr ⟨.reti, by decide, rfl⟩

/-- The interrupts come first, so an instruction that fails leaves their edges behind. -/
theorem Balanced.execute {x : Exploration} (hx : x.Balanced) (code : Code) (vectors : Int)
    {id : StateId} (hid : id < x.graph.size) (s : State) (cell : Cell) :
    ∃ z, Continues x z ∧ ((x.execute code vectors id s cell).1 = z ∨
      ∃ k, k ≠ .normal ∧ (x.execute code vectors id s cell).1 = z.markReturn id k) := by
  have hnoted := hx.continues_note (.exploring id cell s)
  have hinterrupts : Continues x ((x.note (.exploring id cell s)).interrupts vectors id s) :=
    hnoted.trans (Balanced.foldl (id + 1) (fun y num hy hsize => hy.addEdge hsize _ _)
      hnoted.balanced hid _)
  unfold Exploration.execute
  dsimp only
  split
  · exact ⟨_, hinterrupts, .inl rfl⟩
  · next t effect _ =>
    rcases hinterrupts.balanced.apply code (hid.trans_le hinterrupts.grows.size_le) t effect with
      hcont | hmark
    · exact ⟨_, hinterrupts.trans hcont, .inl rfl⟩
    · exact ⟨_, hinterrupts, .inr hmark⟩

/-- Exploring the latest state of the frontier, whether it succeeds or not. -/
theorem Balanced.explore {x : Exploration} (hx : x.Balanced) (code : Code) (vectors : Int)
    {id : StateId} {rest : List StateId} (hfront : x.graph.frontier = id :: rest)
    {y : Exploration} {error : Option RunError}
    (h : ({ x with graph := x.graph.dropFrontier id } : Exploration).explore code vectors id =
      (y, error)) :
    ∃ z, Continues ({ x with graph := x.graph.begin id } : Exploration) z ∧
      (y = z ∨ ∃ k, k ≠ .normal ∧ y = z.markReturn id k) := by
  have hwait := hx.frontier.waiting id (hfront ▸ List.mem_cons_self)
  have hnode : id < x.graph.nodes.size := hx.wellFormed.nodes_size ▸ hwait.1
  have hbegin := hx.begin hfront
  have hsize : (x.graph.begin id).size = x.graph.size := (x.graph.sameShape_begin id).size_eq
  have hmark : (x.graph.dropFrontier id).markExplored id = x.graph.begin id := rfl
  rw [Exploration.explore, if_neg (by simp [Graph.onFrontier_dropFrontier hnode])] at h
  dsimp only at h
  rw [hmark] at h
  split at h
  · obtain ⟨rfl, -⟩ := Prod.mk.inj h
    exact ⟨_, hbegin.continues, .inl rfl⟩
  · next cell _ =>
    have hid : id < (x.graph.begin id).size := hsize.symm ▸ hwait.1
    have hexecute := hbegin.execute code vectors hid ((x.graph.begin id).state id) cell
    rw [h] at hexecute
    exact hexecute

end Exploration

end StackDepth
