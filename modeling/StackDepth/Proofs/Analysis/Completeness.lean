import Mathlib
import StackDepth.Proofs.Analysis.Exploration

/-!
# What an exploration still owes

An exploration is complete up to a debt. Every explored state has its transitions and its mark. Every
marked state is in its own return set or waits to be put there. Every element of the return set of the
target of an edge has been handed over the edge, or the edge waits, or the debt says that the element is
on its way. An exploration that owes nothing and where nothing waits is closed under all rules.

Main statements:

* `Exploration.Complete.extend`: new edges owe nothing, since they wait or lead to a state without
  return states;
* `Exploration.Complete.explore`: exploring a state keeps an exploration complete;
* `Exploration.Idle.exact`: where nothing waits, the graph records exactly the derivable facts.
-/

namespace StackDepth

open Exploration (handlerState resumedState returnEdgeKind Leads)

variable {code : Code} {vectors : Int} {start : State}

/-- A state has the transitions and the mark that follow from the state alone, and is not stuck. -/
def Graph.Expanded (code : Code) (vectors : Int) (g : Graph) (id : StateId) : Prop :=
  (∀ k t, code.Move vectors (g.state id) k t → Leads g id k t) ∧
    (∀ k, code.Ends (g.state id) k → (g.node id).kind = k) ∧
    ¬ code.Stuck (g.state id)

/-- A return state has been taken over an edge: to the return set of the source or, if the edge enters a
frame, to an edge that leads to the state in which the source resumes. -/
def Graph.Handed (code : Code) (g : Graph) (a : Edge) (r : StateId) : Prop :=
  if a.kind.entersFrame = true then
    ∃ addr, code.resume a.kind (g.state a.source) = .ok addr ∧
      Leads g a.source (returnEdgeKind (g.node r).kind)
        (resumedState (g.state r) (g.node r).kind addr)
  else (g.node a.source).returns.contains r = true

/-- What has still to be done: a state whose transitions are being added, and the work of a walk, which
has items and edges over which return states are taken next. -/
structure Debt where
  /-- The state that is being explored. -/
  exploring : Option StateId := none
  /-- The items. -/
  work : List WalkItem := []
  /-- The edges. -/
  edges : List EdgeId := []
  /-- The return states that are taken over the edges. -/
  delta : List StateId := []

/-- Some item takes `r` to `n`. -/
def Debt.Brings (d : Debt) (n r : StateId) : Prop := ∃ item ∈ d.work, item.node = n ∧ r ∈ item.delta

/-- The debt takes `r` over an edge. -/
def Debt.Owes (d : Debt) (e : EdgeId) (a : Edge) (r : StateId) : Prop :=
  a.kind.entersFrame = false ∧ d.Brings a.source r ∨ e ∈ d.edges ∧ r ∈ d.delta

namespace Exploration

/-- All rules have been applied, up to what waits and what is owed. -/
structure Complete (code : Code) (vectors : Int) (x : Exploration) (d : Debt) : Prop where
  /-- An explored state has its transitions and its mark. -/
  expanded : ∀ id, (x.graph.node id).explored = true →
    d.exploring = some id ∨ x.graph.Expanded code vectors id
  /-- A marked state is in its own return set. -/
  marked : ∀ r, (x.graph.node r).kind ≠ .normal →
    (x.graph.node r).returns.contains r = true ∨ r ∈ x.newReturns ∨ d.Brings r r
  /-- A return state has been taken over the edges into the states that it is known to. -/
  handed : ∀ (e : EdgeId) (a : Edge), x.graph.edges[e]? = some a →
    ∀ r, (x.graph.node a.target).returns.contains r = true →
      x.graph.Handed code a r ∨ e ∈ x.newEdges ∨ d.Owes e a r

/-- What is owed may be owed in another way. -/
theorem Complete.mono {x : Exploration} {d d' : Debt} (hc : x.Complete code vectors d)
    (hexploring : d'.exploring = d.exploring) (hbrings : ∀ r, d.Brings r r → d'.Brings r r)
    (howes : ∀ (e : EdgeId) (a : Edge) (r : StateId), d.Owes e a r →
      x.graph.edges[e]? = some a → x.graph.Handed code a r ∨ d'.Owes e a r) :
    x.Complete code vectors d' where
  expanded id hid := by
    rw [hexploring]
    exact hc.expanded id hid
  marked r hr := (hc.marked r hr).imp_right (.imp_right (hbrings r))
  handed e a ha r hr := by
    rcases hc.handed e a ha r hr with hh | hwaits | ho
    · exact .inl hh
    · exact .inr (.inl hwaits)
    · exact (howes e a r ho ha).imp_right .inr

theorem expanded_extend {x y : Exploration} (hx : x.Valid code vectors start) (h : Extends x y)
    {id : StateId} (hid : id < x.graph.size) (hexp : x.graph.Expanded code vectors id) :
    y.graph.Expanded code vectors id := by
  obtain ⟨hmoves, hends, hfree⟩ := hexp
  refine ⟨fun k t hmove => ?_, fun k hk => ?_, ?_⟩
  · rw [h.grows.state_eq id hid] at hmove
    exact (hmoves k t hmove).grows hx.consistent.wellFormed h.grows
  · rw [h.grows.state_eq id hid] at hk
    rw [(h.marks id).1]
    exact hends k hk
  · rw [h.grows.state_eq id hid]
    exact hfree

theorem handed_extend {x y : Exploration} (hx : x.Valid code vectors start) (h : Extends x y)
    {a : Edge} (ha : a ∈ x.graph.edges) {r : StateId} (hr : (x.graph.node r).kind ≠ .normal)
    (hh : x.graph.Handed code a r) : y.graph.Handed code a r := by
  have hwf := hx.consistent.wellFormed
  unfold Graph.Handed at hh ⊢
  split
  · rw [if_pos ‹_›] at hh
    obtain ⟨addr, hresume, hleads⟩ := hh
    rw [h.grows.state_eq _ (hwf.source_lt a ha), (h.marks r).1,
      h.grows.state_eq r (hx.consistent.lt_of_marked hr)]
    exact ⟨addr, hresume, hleads.grows hwf h.grows⟩
  · rw [if_neg ‹_›] at hh
    rw [(h.marks a.source).2.2]
    exact hh

/-- New edges owe nothing: they wait, or their target has no return states yet. -/
theorem Complete.extend {x y : Exploration} {d : Debt} (hc : x.Complete code vectors d)
    (hx : x.Valid code vectors start) (hy : y.Valid code vectors start) (h : Extends x y) :
    y.Complete code vectors d where
  expanded id hid := by
    rw [(h.marks id).2.1] at hid
    exact (hc.expanded id hid).imp_right (expanded_extend hx h (hx.consistent.lt_of_explored hid))
  marked r hr := by
    rw [(h.marks r).1] at hr
    rw [(h.marks r).2.2, h.newReturns_eq]
    exact hc.marked r hr
  handed e a ha r hr := by
    have hret := hy.consistent.returns _ r hr
    rcases h.queued e a ha with hold | hwaits | hfresh
    · rw [(h.marks a.target).2.2] at hr
      have hkind : (x.graph.node r).kind ≠ .normal := (hx.consistent.returns _ r hr).2.1
      rcases hc.handed e a hold r hr with hh | hwaits | howes
      · exact .inl (handed_extend hx h (Array.mem_of_getElem? hold) hkind hh)
      · exact .inr (.inl (h.newEdges_sub e hwaits))
      · exact .inr (.inr howes)
    · exact .inr (.inl hwaits)
    · rw [hfresh] at hret
      exact absurd hret.1 Bool.false_ne_true

/-! ### Exploring a state -/

/-- Handing over depends only on states, edges, marks and return sets. -/
theorem handed_of_sameShape {g g' : Graph} (h : g.SameShape g')
    (hkind : ∀ id, (g.node id).kind ≠ .normal → (g'.node id).kind = (g.node id).kind)
    (hreturns : ∀ id, (g'.node id).returns = (g.node id).returns) {a : Edge} {r : StateId}
    (hr : (g.node r).kind ≠ .normal) (hh : g.Handed code a r) : g'.Handed code a r := by
  unfold Graph.Handed Leads at hh ⊢
  rw [hkind r hr, hreturns, h.edges_eq]
  simp only [h.state_eq]
  exact hh

theorem Valid.begin {x x₁ : Exploration} (hx : x.Valid code vectors start) {id : StateId}
    {rest : List StateId} (hfront : x.graph.frontier = id :: rest)
    (hgraph : x₁.graph = x.graph.begin id) (hreturns : x₁.newReturns = x.newReturns)
    (hedges : x₁.newEdges = x.newEdges) : x₁.Valid code vectors start where
  consistent := hgraph ▸ hx.consistent.begin hfront
  covered := hgraph ▸ hx.covered.begin hx.consistent.frontier hx.consistent.wellFormed hfront
  newEdges_lt e he := by
    rw [hedges] at he
    rw [hgraph, (x.graph.sameShape_begin id).edges_eq]
    exact hx.newEdges_lt e he
  newReturns_marked r hr := by
    rw [hreturns] at hr
    have hwait := hx.consistent.frontier.waiting id (hfront ▸ List.mem_cons_self)
    rw [hgraph, Graph.node_begin (hx.consistent.wellFormed.nodes_size ▸ hwait.1) hwait.2]
    split
    · exact hx.newReturns_marked r hr
    · exact hx.newReturns_marked r hr

theorem Complete.begin {x x₁ : Exploration} (hc : x.Complete code vectors {})
    (hx : x.Valid code vectors start) {id : StateId} {rest : List StateId}
    (hfront : x.graph.frontier = id :: rest) (hgraph : x₁.graph = x.graph.begin id)
    (hreturns : x₁.newReturns = x.newReturns) (hedges : x₁.newEdges = x.newEdges) :
    x₁.Complete code vectors { exploring := some id } := by
  have hwait := hx.consistent.frontier.waiting id (hfront ▸ List.mem_cons_self)
  have hshape := x.graph.sameShape_begin id
  have hnode := Graph.node_begin (hx.consistent.wellFormed.nodes_size ▸ hwait.1) hwait.2
  refine ⟨fun j hj => ?_, fun r hr => ?_, fun e a ha r hr => ?_⟩
  · rw [hgraph] at hj ⊢
    by_cases hjd : j = id
    · exact .inl (congrArg some hjd.symm)
    · rw [hnode, if_neg hjd] at hj
      have hexp := (hc.expanded j hj).resolve_left (by simp)
      unfold Graph.Expanded Leads at hexp ⊢
      rw [Graph.kind_begin, hshape.edges_eq]
      simp only [hshape.state_eq]
      exact .inr hexp
  · rw [hgraph, Graph.kind_begin] at hr
    rw [hgraph, Graph.returns_begin, hreturns]
    exact hc.marked r hr
  · rw [hgraph, hshape.edges_eq] at ha
    rw [hgraph, Graph.returns_begin] at hr
    rw [hgraph, hedges]
    have hmark := (hx.consistent.returns _ r hr).2.1
    exact (hc.handed e a ha r hr).imp_left
      (handed_of_sameShape hshape (fun j _ => x.graph.kind_begin id j) (x.graph.returns_begin id) hmark)

/-- Marking a state that is not marked yet and queueing it. -/
theorem Valid.markReturn {x : Exploration} (hx : x.Valid code vectors start) {id : StateId}
    {k : StateKind} (hid : (x.graph.node id).explored = true)
    (hk : code.Ends (x.graph.state id) k) : (x.markReturn id k).Valid code vectors start := by
  have hlt := hx.consistent.lt_of_explored hid
  have hnode := Graph.node_setKind (hx.consistent.wellFormed.nodes_size ▸ hlt) k
  refine ⟨hx.consistent.setKind hid hk, fun j hj => ?_, hx.newEdges_lt, fun r hr => ?_⟩
  · have hcov := hx.covered j hj
    rw [Exploration.markReturn, hnode]
    split
    · exact hcov
    · exact hcov
  · rw [Exploration.markReturn, hnode]
    split
    · exact hk.ne_normal
    · next hne => exact hx.newReturns_marked r ((List.mem_cons.mp hr).resolve_left hne)

/-- A state that has all its transitions and is no return state is explored. -/
theorem Complete.finish {x : Exploration} {id : StateId}
    (hc : x.Complete code vectors { exploring := some id })
    (hmoves : ∀ k t, code.Move vectors (x.graph.state id) k t → Leads x.graph id k t)
    (hfree : ¬ code.Stuck (x.graph.state id))
    (hends : ∀ k, ¬ code.Ends (x.graph.state id) k) : x.Complete code vectors {} where
  expanded j hj := by
    rcases hc.expanded j hj with heq | hexp
    · obtain rfl : id = j := Option.some.inj heq
      exact .inr ⟨hmoves, fun k hk => absurd hk (hends k), hfree⟩
    · exact .inr hexp
  marked := hc.marked
  handed := hc.handed

/-- A return state that has all its transitions is explored when it is marked and waits. -/
theorem Complete.markReturn {x : Exploration} {id : StateId} {k : StateKind}
    (hc : x.Complete code vectors { exploring := some id }) (hx : x.Valid code vectors start)
    (hid : (x.graph.node id).explored = true)
    (hmoves : ∀ k t, code.Move vectors (x.graph.state id) k t → Leads x.graph id k t)
    (hfree : ¬ code.Stuck (x.graph.state id))
    (hk : code.Ends (x.graph.state id) k) : (x.markReturn id k).Complete code vectors {} := by
  have hlt := hx.consistent.lt_of_explored hid
  have hnode := Graph.node_setKind (hx.consistent.wellFormed.nodes_size ▸ hlt) k
  have hshape := x.graph.sameShape_setKind id k
  have hkind : ∀ j, (x.graph.node j).kind ≠ .normal →
      ((x.graph.setKind id k).node j).kind = (x.graph.node j).kind := by
    intro j hj
    rw [hnode]
    split
    · next hjd =>
      subst hjd
      exact hk.unique (hx.consistent.kinds j hj).2
    · rfl
  refine ⟨fun j hj => .inr ?_, fun r hr => ?_, fun e a ha r hr => ?_⟩
  · rw [Exploration.markReturn, hnode] at hj
    by_cases hjd : j = id
    · subst hjd
      refine ⟨hmoves, fun l hl => ?_, hfree⟩
      rw [Exploration.markReturn, hnode, if_pos rfl]
      exact hk.unique hl
    · rw [if_neg hjd] at hj
      have hexp := (hc.expanded j hj).resolve_left fun h => hjd (Option.some.inj h).symm
      obtain ⟨hmoves', hends', hfree'⟩ := hexp
      refine ⟨hmoves', fun l hl => ?_, hfree'⟩
      rw [Exploration.markReturn, hnode, if_neg hjd]
      exact hends' l hl
  · by_cases hrd : r = id
    · exact .inr (.inl (hrd ▸ List.mem_cons_self))
    · rw [Exploration.markReturn, hnode, if_neg hrd] at hr
      rw [Exploration.markReturn, Graph.returns_setKind]
      exact (hc.marked r hr).imp_right (.imp_left (List.mem_cons_of_mem _))
  · rw [Exploration.markReturn, Graph.returns_setKind] at hr
    have hmark := (hx.consistent.returns _ r hr).2.1
    exact (hc.handed e a ha r hr).imp_left
      (handed_of_sameShape hshape hkind (x.graph.returns_setKind id k) hmark)

/-- What exploring a state changes besides the transitions of the state. -/
structure Explores (x y : Exploration) (id : StateId) : Prop where
  /-- The state was not explored before. -/
  fresh : (x.graph.node id).explored = false
  /-- The state is explored, and no other one. -/
  explored_iff : ∀ j, (y.graph.node j).explored = true ↔ j = id ∨ (x.graph.node j).explored = true
  /-- At most one return state begins to wait. -/
  newReturns_length : y.newReturns.length ≤ x.newReturns.length + 1
  /-- An edge begins to wait when it is added. -/
  count_le : y.newEdges.length + x.graph.edges.size ≤ x.newEdges.length + y.graph.edges.size

/-- Exploring the latest state of the frontier keeps an exploration valid and complete. -/
theorem Complete.explore {x y : Exploration} (hc : x.Complete code vectors {})
    (hx : x.Valid code vectors start) {id : StateId} {rest : List StateId}
    (hfront : x.graph.frontier = id :: rest)
    (h : ({ x with graph := x.graph.dropFrontier id } : Exploration).explore code vectors id =
      (y, none)) :
    y.Valid code vectors start ∧ y.Complete code vectors {} ∧ Explores x y id := by
  obtain ⟨x₁, t, e, hgraph, hreturns, hedges, hexec, hfree, hend⟩ := explore_spec h
  have hwait := hx.consistent.frontier.waiting id (hfront ▸ List.mem_cons_self)
  have hnode := Graph.node_begin (hx.consistent.wellFormed.nodes_size ▸ hwait.1) hwait.2
  have hshape := x.graph.sameShape_begin id
  have hx₁ := hx.begin hfront hgraph hreturns hedges
  have hid₁ : (x₁.graph.node id).explored = true := by rw [hgraph, hnode, if_pos rfl]
  have hstate₁ : x₁.graph.state id = x.graph.state id := by rw [hgraph, hshape.state_eq]
  generalize hz : x₁.addAll id _ = z at hend
  have hderivable : ∀ m ∈ interruptMoves vectors (x.graph.state id) ++ effectMoves code t e,
      Derivable code vectors start (.edge (x₁.graph.state id) m.1 m.2) := by
    intro m hm
    refine .move (hx₁.consistent.reached id (hx₁.consistent.lt_of_explored hid₁)) ?_
    rw [hstate₁]
    rcases List.mem_append.mp hm with hm | hm
    · exact move_of_mem_interruptMoves hm
    · exact move_of_mem_effectMoves hexec hm
  obtain ⟨hzv, hext, hleads⟩ := hx₁.addAll hid₁ hderivable
  rw [hz] at hzv hext hleads
  have hstate : z.graph.state id = x.graph.state id := by
    rw [hext.grows.state_eq id (hx₁.consistent.lt_of_explored hid₁), hstate₁]
  have hidz : (z.graph.node id).explored = true := (hext.marks id).2.1.trans hid₁
  have hmoves : ∀ k u, code.Move vectors (z.graph.state id) k u → Leads z.graph id k u := by
    intro k u hmove
    rw [hstate] at hmove
    exact hleads (k, u) (List.mem_append.mpr (mem_moves_of_move hexec hmove))
  have hfreez : ¬ code.Stuck (z.graph.state id) := hstate.symm ▸ hfree
  have hzc := (hc.begin hx hfront hgraph hreturns hedges).extend hx₁ hzv hext
  have hexplored : ∀ j, (z.graph.node j).explored = true ↔
      j = id ∨ (x.graph.node j).explored = true := by
    intro j
    rw [(hext.marks j).2.1, hgraph, hnode]
    by_cases hj : j = id
    · simp [hj]
    · simp [hj]
  have hcount : z.newEdges.length + x.graph.edges.size ≤ x.newEdges.length + z.graph.edges.size := by
    have hle := hext.count_le
    rwa [hgraph, hshape.edges_eq, hedges] at hle
  have hlen : z.newReturns.length = x.newReturns.length := by rw [hext.newReturns_eq, hreturns]
  rcases hend with ⟨hno, rfl⟩ | ⟨k, hk, rfl⟩
  · exact ⟨hzv, hzc.finish hmoves hfreez (hstate.symm ▸ hno), hwait.2, hexplored, by omega, hcount⟩
  · have hkz : code.Ends (z.graph.state id) k := hstate.symm ▸ hk
    refine ⟨hzv.markReturn hidz hkz, hzc.markReturn hzv hidz hmoves hfreez hkz, hwait.2, fun j => ?_, ?_,
      hcount⟩
    · rw [← hexplored j, Exploration.markReturn, Graph.explored_setKind]
    · rw [Exploration.markReturn, List.length_cons, hlen]

end Exploration

/-! ### Where nothing waits -/

/-- A graph records a fact. -/
def Fact.RecordedIn (g : Graph) : Fact → Prop
  | .reached s => ∃ id < g.size, g.state id = s
  | .edge s k t => ∃ a ∈ g.edges, g.state a.source = s ∧ a.kind = k ∧ g.state a.target = t
  | .returns s r => ∃ n m, (g.node n).returns.contains m = true ∧ g.state n = s ∧ g.state m = r

/-- A graph that records exactly the derivable facts, and marks exactly the return states. -/
structure Graph.Exact (code : Code) (vectors : Int) (start : State) (g : Graph) : Prop where
  /-- Only derivable facts are recorded. -/
  consistent : g.Consistent code vectors start
  /-- Every derivable fact is recorded. -/
  recorded : ∀ f, Derivable code vectors start f → f.RecordedIn g
  /-- A return state is marked. -/
  marked : ∀ id < g.size, ∀ k, code.Ends (g.state id) k → (g.node id).kind = k
  /-- No node is stuck. -/
  free : ∀ id < g.size, ¬ code.Stuck (g.state id)

namespace Exploration

/-- Nothing waits. -/
def Idle (x : Exploration) : Prop := x.graph.frontier = [] ∧ x.newReturns = [] ∧ x.newEdges = []

variable {x : Exploration}

theorem Idle.explored (hi : x.Idle) (hx : x.Valid code vectors start) {id : StateId}
    (hid : id < x.graph.size) : (x.graph.node id).explored = true := by
  refine (hx.covered id hid).resolve_right ?_
  rw [hi.1]
  exact List.not_mem_nil

theorem Idle.expanded (hi : x.Idle) (hx : x.Valid code vectors start)
    (hc : x.Complete code vectors {}) {id : StateId} (hid : id < x.graph.size) :
    x.graph.Expanded code vectors id :=
  (hc.expanded id (hi.explored hx hid)).resolve_left (by simp)

theorem Idle.handed (hi : x.Idle) (hc : x.Complete code vectors {}) {a : Edge}
    (ha : a ∈ x.graph.edges) {r : StateId} (hr : (x.graph.node a.target).returns.contains r = true) :
    x.graph.Handed code a r := by
  obtain ⟨e, he⟩ := Array.mem_iff_getElem?.mp ha
  rcases hc.handed e a he r hr with hh | hwaits | howes
  · exact hh
  · rw [hi.2.2] at hwaits
    exact absurd hwaits List.not_mem_nil
  · rcases howes with ⟨-, item, hitem, -⟩ | ⟨he, -⟩
    · exact absurd hitem List.not_mem_nil
    · exact absurd he List.not_mem_nil

/-- Where nothing waits, every rule has been applied. -/
theorem Idle.recorded (hi : x.Idle) (hx : x.Valid code vectors start)
    (hc : x.Complete code vectors {}) {f : Fact} (hf : Derivable code vectors start f) :
    f.RecordedIn x.graph := by
  have hg := hx.consistent
  have hwf := hg.wellFormed
  induction hf with
  | start => exact ⟨x.graph.eden, hg.eden.1, hg.eden.2⟩
  | target _ ih =>
    obtain ⟨a, ha, -, -, ht⟩ := ih
    exact ⟨a.target, hwf.target_lt a ha, ht⟩
  | move _ hmove ih =>
    obtain ⟨id, hid, rfl⟩ := ih
    obtain ⟨v, hv, ht⟩ := (hi.expanded hx hc hid).1 _ _ hmove
    exact ⟨_, hv, rfl, rfl, ht⟩
  | here _ hend ih =>
    obtain ⟨id, hid, rfl⟩ := ih
    have hkind := (hi.expanded hx hc hid).2.1 _ hend
    have hmark : (x.graph.node id).kind ≠ .normal := hkind ▸ hend.ne_normal
    rcases hc.marked id hmark with hself | hwaits | ⟨item, hitem, -⟩
    · exact ⟨id, id, hself, rfl, rfl⟩
    · rw [hi.2.1] at hwaits
      exact absurd hwaits List.not_mem_nil
    · exact absurd hitem List.not_mem_nil
  | back _ hk _ ihe ihr =>
    obtain ⟨a, ha, rfl, rfl, ht⟩ := ihe
    obtain ⟨n, m, hm, hn, rfl⟩ := ihr
    have hnlt := hg.lt_of_explored (hg.returns n m hm).1
    obtain rfl : a.target = n :=
      hwf.state_injective (hwf.target_lt a ha) hnlt (ht.trans hn.symm)
    have hh := hi.handed hc ha hm
    rw [Graph.Handed, if_neg (by simp [hk])] at hh
    exact ⟨a.source, m, hh, rfl, rfl⟩
  | resume _ hk _ hend haddr ihe ihr =>
    obtain ⟨a, ha, rfl, rfl, ht⟩ := ihe
    obtain ⟨n, m, hm, hn, rfl⟩ := ihr
    obtain ⟨hexp, hmark, -⟩ := hg.returns n m hm
    obtain rfl : a.target = n :=
      hwf.state_injective (hwf.target_lt a ha) (hg.lt_of_explored hexp) (ht.trans hn.symm)
    have hkind := (hg.kinds m hmark).2.unique hend
    have hh := hi.handed hc ha hm
    rw [Graph.Handed, if_pos hk, hkind] at hh
    obtain ⟨addr, hresume, v, hv, hs⟩ := hh
    obtain rfl := Except.ok.inj (haddr.symm.trans hresume)
    exact ⟨_, hv, rfl, rfl, hs⟩

/-- Where nothing waits, the graph is exact. -/
theorem Idle.exact (hi : x.Idle) (hx : x.Valid code vectors start)
    (hc : x.Complete code vectors {}) : x.graph.Exact code vectors start where
  consistent := hx.consistent
  recorded _ hf := hi.recorded hx hc hf
  marked _ hid k hk := (hi.expanded hx hc hid).2.1 k hk
  free _ hid := (hi.expanded hx hc hid).2.2

end Exploration

end StackDepth
