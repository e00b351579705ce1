import Mathlib
import StackDepth.Proofs.Analysis.Completeness

/-!
# Walking backwards

A walk takes return states from state to state against the edges. Its invariant says that every item of
its work is justified by derivable facts, and that the exploration is complete up to this work: a return
state that is recorded at a state has been taken over all edges into it, or an item will do so. Stitching
adds edges during a walk; these wait or lead to states without return states, so the list of edges that
the walk goes through need not be read again.

Every item that is not dropped adds an element to a return set, so the number of items is bounded and
the fuel of a walk suffices.

Main statements:

* `Exploration.stitch_spec`: a call is joined to the states in which it resumes;
* `Exploration.walkEdges_spec`, `Exploration.absorb_spec`: the two halves of one step of a walk;
* `Exploration.walk_spec`: a walk pays its debt;
* `Exploration.propagateNext_eq`: serving a queue is a walk, or stitching, or nothing.
-/

namespace StackDepth

open Exploration (handlerState resumedState returnEdgeKind Leads)

variable {code : Code} {vectors : Int} {start : State}

/-- The state of an item is explored, and its return states can be reached from it. -/
def WalkItem.Justified (code : Code) (vectors : Int) (start : State) (g : Graph)
    (item : WalkItem) : Prop :=
  (g.node item.node).explored = true ∧ ∀ r ∈ item.delta, (g.node r).kind ≠ .normal ∧
    Derivable code vectors start (.returns (g.state item.node) (g.state r))

namespace Exploration

theorem justified_extend {x y : Exploration} (hx : x.Valid code vectors start) (h : Extends x y)
    {item : WalkItem} (hi : item.Justified code vectors start x.graph) :
    item.Justified code vectors start y.graph := by
  refine ⟨(h.marks _).2.1.trans hi.1, fun r hr => ?_⟩
  obtain ⟨hkind, hret⟩ := hi.2 r hr
  rw [(h.marks r).1, h.grows.state_eq _ (hx.consistent.lt_of_explored hi.1),
    h.grows.state_eq r (hx.consistent.lt_of_marked hkind)]
  exact ⟨hkind, hret⟩

/-! ### Stitching -/

/-- The edge that joins a caller to the state in which it resumes after `r`. -/
def stitchOne (x : Exploration) (a : Edge) (addr : Address) (r : StateId) : Exploration :=
  x.addEdge a.source (returnEdgeKind (x.graph.node r).kind)
    (resumedState (x.graph.state r) (x.graph.node r).kind addr)

theorem stitch_eq {x y : Exploration} {a : Edge} {rets : List StateId}
    (h : x.stitch code a rets = (y, none)) :
    ∃ addr, code.resume a.kind (x.graph.state a.source) = .ok addr ∧
      y = rets.foldl (fun x r => x.stitchOne a addr r) x := by
  have hresume : resumeAddress code x.graph a = code.resume a.kind (x.graph.state a.source) := rfl
  rw [stitch, hresume] at h
  cases haddr : code.resume a.kind (x.graph.state a.source) with
  | error cause => simp [haddr] at h
  | ok addr =>
    rw [haddr] at h
    exact ⟨addr, rfl, (congrArg Prod.fst h).symm⟩

theorem stitchOne_spec {x : Exploration} (hx : x.Valid code vectors start) {a : Edge}
    (ha : a ∈ x.graph.edges) (hframe : a.kind.entersFrame = true) {addr : Address}
    (haddr : code.resume a.kind (x.graph.state a.source) = .ok addr) {r : StateId}
    (hr : (x.graph.node a.target).returns.contains r = true) :
    (x.stitchOne a addr r).Valid code vectors start ∧ Extends x (x.stitchOne a addr r) ∧
      (x.stitchOne a addr r).graph.Handed code a r := by
  have hg := hx.consistent
  obtain ⟨hsource, hedge⟩ := hg.edges a ha
  obtain ⟨-, hkind, hret⟩ := hg.returns _ r hr
  have hsummary := Derivable.resume hedge hframe hret (hg.kinds r hkind).2 haddr
  obtain ⟨hvalid, hext, hleads⟩ := hx.addEdge hsource hsummary
  refine ⟨hvalid, hext, ?_⟩
  rw [stitchOne, Graph.Handed, if_pos hframe, (hext.marks r).1,
    hext.grows.state_eq _ (hg.lt_of_explored hsource), hext.grows.state_eq r (hg.lt_of_marked hkind)]
  exact ⟨addr, haddr, hleads⟩

/-- Stitching joins a caller to the states in which it resumes. -/
theorem stitch_fold {x : Exploration} (hx : x.Valid code vectors start) {a : Edge}
    (ha : a ∈ x.graph.edges) (hframe : a.kind.entersFrame = true) {addr : Address}
    (haddr : code.resume a.kind (x.graph.state a.source) = .ok addr) {rets : List StateId}
    (hrets : ∀ r ∈ rets, (x.graph.node a.target).returns.contains r = true) :
    (rets.foldl (fun x r => x.stitchOne a addr r) x).Valid code vectors start ∧
      Extends x (rets.foldl (fun x r => x.stitchOne a addr r) x) ∧
      ∀ r ∈ rets, (rets.foldl (fun x r => x.stitchOne a addr r) x).graph.Handed code a r := by
  induction rets generalizing x with
  | nil => exact ⟨hx, .refl x, fun r hr => absurd hr List.not_mem_nil⟩
  | cons r rest ih =>
    have hr := hrets r List.mem_cons_self
    obtain ⟨hvalid, hext, hhanded⟩ := stitchOne_spec hx ha hframe haddr hr
    have ha' := hext.grows.mem_edges ha
    have hsource := hx.consistent.wellFormed.source_lt a ha
    obtain ⟨hvalid', hext', hhanded'⟩ := ih hvalid ha'
      (by rwa [hext.grows.state_eq _ hsource])
      (fun q hq => by
        rw [(hext.marks a.target).2.2]
        exact hrets q (List.mem_cons_of_mem _ hq))
    refine ⟨hvalid', hext.trans hext', fun q hq => ?_⟩
    rcases List.mem_cons.mp hq with rfl | hq
    · have hkind := (hx.consistent.returns _ q hr).2.1
      exact handed_extend hvalid hext' ha' ((hext.marks q).1 ▸ hkind) hhanded
    · exact hhanded' q hq

theorem stitch_spec {x y : Exploration} (hx : x.Valid code vectors start) {a : Edge}
    (ha : a ∈ x.graph.edges) (hframe : a.kind.entersFrame = true) {rets : List StateId}
    (hrets : ∀ r ∈ rets, (x.graph.node a.target).returns.contains r = true)
    (h : x.stitch code a rets = (y, none)) :
    y.Valid code vectors start ∧ Extends x y ∧ ∀ r ∈ rets, y.graph.Handed code a r := by
  obtain ⟨addr, haddr, rfl⟩ := stitch_eq h
  exact stitch_fold hx ha hframe haddr hrets

/-! ### One step of a walk -/

/-- A debt of no edges, or of no return states, is none. -/
theorem Complete.settle {x : Exploration} {work : List WalkItem} {es : List EdgeId}
    {delta : List StateId} (hc : x.Complete code vectors { work, edges := es, delta })
    (hnil : es = [] ∨ delta = []) : x.Complete code vectors { work } := by
  refine hc.mono rfl (fun _ h => h) fun e a r howes _ => .inr ?_
  rcases howes with hbrings | ⟨he, hr⟩
  · exact .inl hbrings
  · rcases hnil with rfl | rfl
    · exact absurd he List.not_mem_nil
    · exact absurd hr List.not_mem_nil

/-- An edge over which all return states of the debt have been taken is no longer owed. -/
theorem Complete.payEdge {x : Exploration} {work : List WalkItem} {e : EdgeId} {es : List EdgeId}
    {delta : List StateId} {a : Edge}
    (hc : x.Complete code vectors { work, edges := e :: es, delta })
    (he : x.graph.edges[e]? = some a) (hpaid : ∀ r ∈ delta, x.graph.Handed code a r) :
    x.Complete code vectors { work, edges := es, delta } := by
  refine hc.mono rfl (fun _ h => h) fun f b r howes hb => ?_
  rcases howes with hbrings | ⟨hf, hd⟩
  · exact .inr (.inl hbrings)
  · rcases List.mem_cons.mp hf with rfl | hf
    · obtain rfl : a = b := Option.some.inj (he.symm.trans hb)
      exact .inl (hpaid r hd)
    · exact .inr (.inr ⟨hf, hd⟩)

/-- An edge that enters no frame is owed by a new item instead. -/
theorem Complete.deferEdge {x : Exploration} {work : List WalkItem} {e : EdgeId} {es : List EdgeId}
    {delta : List StateId} {a : Edge}
    (hc : x.Complete code vectors { work, edges := e :: es, delta })
    (he : x.graph.edges[e]? = some a) (hframe : a.kind.entersFrame = false) :
    x.Complete code vectors { work := ⟨a.source, delta⟩ :: work, edges := es, delta } := by
  have hcons : ∀ n r, Debt.Brings { work, edges := e :: es, delta } n r →
      Debt.Brings { work := ⟨a.source, delta⟩ :: work, edges := es, delta } n r := by
    rintro n r ⟨item, hitem, hbrings⟩
    exact ⟨item, List.mem_cons_of_mem _ hitem, hbrings⟩
  refine hc.mono rfl (fun r => hcons r r) fun f b r howes hb => .inr ?_
  rcases howes with ⟨hplain, hbrings⟩ | ⟨hf, hd⟩
  · exact .inl ⟨hplain, hcons _ r hbrings⟩
  · rcases List.mem_cons.mp hf with rfl | hf
    · obtain rfl : a = b := Option.some.inj (he.symm.trans hb)
      exact .inl ⟨hframe, _, List.mem_cons_self, rfl, hd⟩
    · exact .inr ⟨hf, hd⟩

/-- Taking return states over a list of edges into a state pays for these edges. -/
theorem walkEdges_spec {n : StateId} {delta : List StateId} {es : List EdgeId}
    {x y : Exploration} {work work' : List WalkItem} (hx : x.Valid code vectors start)
    (hc : x.Complete code vectors { work, edges := es, delta })
    (hes : ∀ e ∈ es, ∃ a, x.graph.edges[e]? = some a ∧ a.target = n)
    (hdelta : ∀ r ∈ delta, (x.graph.node n).returns.contains r = true)
    (hwork : ∀ item ∈ work, item.Justified code vectors start x.graph)
    (h : walkEdges code delta es x work = (y, work', none)) :
    y.Valid code vectors start ∧ Extends x y ∧ y.Complete code vectors { work := work' } ∧
      (∀ item ∈ work', item.Justified code vectors start y.graph) ∧
      work'.length ≤ work.length + es.length := by
  induction es generalizing x work with
  | nil =>
    simp only [walkEdges, Prod.mk.injEq, and_true] at h
    obtain ⟨rfl, rfl⟩ := h
    exact ⟨hx, .refl x, hc.settle (.inl rfl), hwork, le_rfl⟩
  | cons e es ih =>
    obtain ⟨a, ha, rfl⟩ := hes e List.mem_cons_self
    have hmem : a ∈ x.graph.edges := Array.mem_of_getElem? ha
    have hrest : ∀ f ∈ es, ∃ b, x.graph.edges[f]? = some b ∧ b.target = a.target :=
      fun f hf => hes f (List.mem_cons_of_mem _ hf)
    rw [walkEdges, Graph.edge_eq ha] at h
    split at h
    · next hframe =>
      split at h
      · next z hstitch =>
        obtain ⟨hz, hext, hhanded⟩ := stitch_spec hx hmem hframe hdelta hstitch
        have hcz := (hc.extend hx hz hext).payEdge (hext.grows.edge_eq e a ha) hhanded
        obtain ⟨hy, hext', hcy, hworky, hlen⟩ := ih hz hcz
          (fun f hf => by
            obtain ⟨b, hb, ht⟩ := hrest f hf
            exact ⟨b, hext.grows.edge_eq f b hb, ht⟩)
          (fun r hr => by
            rw [(hext.marks a.target).2.2]
            exact hdelta r hr)
          (fun item hitem => justified_extend hx hext (hwork item hitem)) h
        refine ⟨hy, hext.trans hext', hcy, hworky, hlen.trans ?_⟩
        rw [List.length_cons]
        omega
      · simp at h
    · next hframe =>
      have hplain : a.kind.entersFrame = false := by simpa using hframe
      obtain ⟨hsource, hedge⟩ := hx.consistent.edges a hmem
      have hitem : (⟨a.source, delta⟩ : WalkItem).Justified code vectors start x.graph := by
        refine ⟨hsource, fun r hr => ?_⟩
        obtain ⟨-, hkind, hret⟩ := hx.consistent.returns _ r (hdelta r hr)
        exact ⟨hkind, .back hedge hplain hret⟩
      obtain ⟨hy, hext, hcy, hworky, hlen⟩ := ih hx (hc.deferEdge ha hplain) hrest hdelta
        (fun item hmem => by
          rcases List.mem_cons.mp hmem with rfl | hmem
          · exact hitem
          · exact hwork item hmem) h
      refine ⟨hy, hext, hcy, hworky, hlen.trans ?_⟩
      rw [List.length_cons, List.length_cons]
      omega

/-- The return states of an item have been added to the set of its state; `fresh` are the new ones. -/
structure Absorbs (x y : Exploration) (item : WalkItem) (fresh : List StateId) : Prop where
  /-- States and edges are the same. -/
  shape : x.graph.SameShape y.graph
  /-- The same states are explored. -/
  explored_eq : ∀ id, (y.graph.node id).explored = (x.graph.node id).explored
  /-- The same states are marked. -/
  kind_eq : ∀ id, (y.graph.node id).kind = (x.graph.node id).kind
  /-- The same states wait. -/
  onFrontier_eq : ∀ id, (y.graph.node id).onFrontier = (x.graph.node id).onFrontier
  /-- The frontier is the same. -/
  frontier_eq : y.graph.frontier = x.graph.frontier
  /-- The return states are added to one set. -/
  returns_iff : ∀ n r, (y.graph.node n).returns.contains r = true ↔
    (x.graph.node n).returns.contains r = true ∨ n = item.node ∧ r ∈ item.delta
  /-- The new elements are reported. -/
  mem_fresh : ∀ r, r ∈ fresh ↔
    r ∈ item.delta ∧ (x.graph.node item.node).returns.contains r = false
  /-- The size of one set grows by the number of new elements. -/
  size_eq : ∀ id, (y.graph.node id).returns.size =
    (x.graph.node id).returns.size + if id = item.node then fresh.length else 0
  /-- The same return states wait. -/
  newReturns_eq : y.newReturns = x.newReturns
  /-- The same edges wait. -/
  newEdges_eq : y.newEdges = x.newEdges

theorem absorbs_of_absorb {x y : Exploration} {item : WalkItem} {fresh : List StateId}
    (hlt : item.node < x.graph.nodes.size) (h : x.absorb item.node item.delta = (y, fresh)) :
    Absorbs x y item fresh := by
  have hnode := Graph.node_setReturns hlt ((x.graph.node item.node).returns.addAll item.delta).1
  have hshape := x.graph.sameShape_setReturns item.node
    ((x.graph.node item.node).returns.addAll item.delta).1
  have hsize := ReturnSet.size_addAll (x.graph.node item.node).returns item.delta
  have hmem := ReturnSet.contains_addAll (x.graph.node item.node).returns item.delta
  have hfresh := ReturnSet.mem_fresh (x.graph.node item.node).returns item.delta
  simp only [absorb, Prod.mk.injEq] at h
  obtain ⟨rfl, rfl⟩ := h
  refine ⟨hshape, fun id => ?_, fun id => ?_, fun id => ?_, rfl, fun n r => ?_, hfresh, fun id => ?_,
    rfl, rfl⟩
  · rw [hnode]
    split <;> rfl
  · rw [hnode]
    split <;> rfl
  · rw [hnode]
    split <;> rfl
  · rw [hnode]
    split
    · next hn =>
      subst hn
      simp [hmem]
    · next hn => simp [hn]
  · rw [hnode]
    split
    · next hn =>
      subst hn
      exact hsize
    · rfl

namespace Absorbs

variable {x y : Exploration} {item : WalkItem} {fresh : List StateId}

theorem frontierInOrder (h : Absorbs x y item fresh) (hf : x.graph.FrontierInOrder) :
    y.graph.FrontierInOrder where
  onFrontier_iff id := by
    rw [h.onFrontier_eq, h.frontier_eq]
    exact hf.onFrontier_iff id
  nodup := by
    rw [h.frontier_eq]
    exact hf.nodup
  waiting id hid := by
    rw [h.frontier_eq] at hid
    rw [h.shape.size_eq, h.explored_eq]
    exact hf.waiting id hid

theorem covered (h : Absorbs x y item fresh) (hc : x.graph.Covered) : y.graph.Covered := by
  intro id hid
  rw [h.shape.size_eq] at hid
  rw [h.explored_eq, h.frontier_eq]
  exact hc id hid

/-- Adding justified return states keeps a graph consistent. -/
theorem consistent (h : Absorbs x y item fresh) (hg : x.graph.Consistent code vectors start)
    (hitem : item.Justified code vectors start x.graph) :
    y.graph.Consistent code vectors start := by
  refine ⟨h.shape.wellFormed hg.wellFormed, h.frontierInOrder hg.frontier, ?_, ?_, ?_, ?_, ?_⟩
  · rw [h.shape.eden_eq, h.shape.size_eq, h.shape.state_eq]
    exact hg.eden
  · intro id hid
    rw [h.shape.size_eq] at hid
    rw [h.shape.state_eq]
    exact hg.reached id hid
  · intro a ha
    rw [h.shape.edges_eq] at ha
    rw [h.explored_eq, h.shape.state_eq, h.shape.state_eq]
    exact hg.edges a ha
  · intro id hid
    rw [h.kind_eq] at hid ⊢
    rw [h.explored_eq, h.shape.state_eq]
    exact hg.kinds id hid
  · intro n r hr
    rw [h.explored_eq, h.kind_eq, h.shape.state_eq, h.shape.state_eq]
    rcases (h.returns_iff n r).mp hr with hold | ⟨rfl, hdelta⟩
    · exact hg.returns n r hold
    · exact ⟨hitem.1, hitem.2 r hdelta⟩

theorem valid (h : Absorbs x y item fresh) (hx : x.Valid code vectors start)
    (hitem : item.Justified code vectors start x.graph) : y.Valid code vectors start where
  consistent := h.consistent hx.consistent hitem
  covered := h.covered hx.covered
  newEdges_lt e he := by
    rw [h.newEdges_eq] at he
    rw [h.shape.edges_eq]
    exact hx.newEdges_lt e he
  newReturns_marked r hr := by
    rw [h.newReturns_eq] at hr
    rw [h.kind_eq]
    exact hx.newReturns_marked r hr

theorem justified (h : Absorbs x y item fresh) {other : WalkItem}
    (hother : other.Justified code vectors start x.graph) :
    other.Justified code vectors start y.graph := by
  refine ⟨(h.explored_eq _).trans hother.1, fun r hr => ?_⟩
  rw [h.kind_eq, h.shape.state_eq, h.shape.state_eq]
  exact hother.2 r hr

/-- What has been handed over stays so, since return sets only grow. -/
theorem handed (h : Absorbs x y item fresh) {a : Edge} {r : StateId}
    (hh : x.graph.Handed code a r) : y.graph.Handed code a r := by
  unfold Graph.Handed Leads at hh ⊢
  rw [h.kind_eq, h.shape.edges_eq]
  simp only [h.shape.state_eq]
  split
  · rwa [if_pos ‹_›] at hh
  · rw [if_neg ‹_›] at hh
    exact (h.returns_iff _ r).mpr (.inl hh)

/-- The item is paid for by taking its new return states over all edges into its state. -/
theorem complete (h : Absorbs x y item fresh) {work : List WalkItem}
    (hx : y.graph.WellFormed) (hc : x.Complete code vectors { work := item :: work }) :
    y.Complete code vectors { work, edges := y.graph.incoming item.node, delta := fresh } := by
  refine ⟨fun id hid => ?_, fun r hr => ?_, fun e a ha r hr => ?_⟩
  · rw [h.explored_eq] at hid
    refine (hc.expanded id hid).imp_right fun hexp => ?_
    unfold Graph.Expanded Leads at hexp ⊢
    rw [h.kind_eq, h.shape.edges_eq]
    simp only [h.shape.state_eq]
    exact hexp
  · rw [h.kind_eq] at hr
    rw [h.returns_iff, h.newReturns_eq]
    rcases hc.marked r hr with hself | hwaits | ⟨i, hi, hnode, hdelta⟩
    · exact .inl (.inl hself)
    · exact .inr (.inl hwaits)
    · rcases List.mem_cons.mp hi with rfl | hi
      · exact .inl (.inr ⟨hnode.symm, hdelta⟩)
      · exact .inr (.inr ⟨i, hi, hnode, hdelta⟩)
  · have hlisted : a.target = item.node → e ∈ y.graph.incoming item.node :=
      fun ht => (hx.mem_incoming _ e).mpr ⟨a, ha, ht⟩
    rw [h.shape.edges_eq] at ha
    rw [h.newEdges_eq]
    by_cases hold : (x.graph.node a.target).returns.contains r = true
    · rcases hc.handed e a ha r hold with hh | hwaits | ⟨hplain, i, hi, hnode, hdelta⟩ | ⟨he, -⟩
      · exact .inl (h.handed hh)
      · exact .inr (.inl hwaits)
      · rcases List.mem_cons.mp hi with rfl | hi
        · refine .inl ?_
          rw [Graph.Handed, if_neg (by simp [hplain])]
          exact (h.returns_iff _ r).mpr (.inr ⟨hnode.symm, hdelta⟩)
        · exact .inr (.inr (.inl ⟨hplain, i, hi, hnode, hdelta⟩))
      · exact absurd he List.not_mem_nil
    · -- a return state that is new to the target is owed over the edge
      obtain ⟨ht, hdelta⟩ := ((h.returns_iff _ r).mp hr).resolve_left hold
      have hnew : (x.graph.node item.node).returns.contains r = false := by
        rw [← ht]
        exact Bool.eq_false_of_not_eq_true hold
      exact .inr (.inr (.inr ⟨hlisted ht, (h.mem_fresh r).mpr ⟨hdelta, hnew⟩⟩))

end Absorbs

/-! ### Walks -/

/-- What a walk leaves alone: which states are explored and which return states wait. -/
structure Keeps (x y : Exploration) : Prop where
  /-- The same states are explored. -/
  explored_eq : ∀ id, (y.graph.node id).explored = (x.graph.node id).explored
  /-- The same return states wait. -/
  newReturns_eq : y.newReturns = x.newReturns
  /-- An edge begins to wait when it is added. -/
  count_le : y.newEdges.length + x.graph.edges.size ≤ x.newEdges.length + y.graph.edges.size

theorem Keeps.refl (x : Exploration) : Keeps x x := ⟨fun _ => rfl, rfl, le_rfl⟩

theorem Keeps.trans {x y z : Exploration} (hxy : Keeps x y) (hyz : Keeps y z) : Keeps x z where
  explored_eq id := (hyz.explored_eq id).trans (hxy.explored_eq id)
  newReturns_eq := hyz.newReturns_eq.trans hxy.newReturns_eq
  count_le := by
    have hfirst := hxy.count_le
    have hsecond := hyz.count_le
    omega

theorem Extends.keeps {x y : Exploration} (h : Extends x y) : Keeps x y :=
  ⟨fun id => (h.marks id).2.1, h.newReturns_eq, h.count_le⟩

theorem Absorbs.keeps {x y : Exploration} {item : WalkItem} {fresh : List StateId}
    (h : Absorbs x y item fresh) : Keeps x y :=
  ⟨h.explored_eq, h.newReturns_eq, by rw [h.newEdges_eq, h.shape.edges_eq]⟩

/-- The number of elements of all return sets of states below `bound`. -/
def total (g : Graph) (bound : Nat) : Nat := ∑ id ∈ Finset.range bound, (g.node id).returns.size

theorem total_le {g : Graph} (hg : g.Consistent code vectors start) {bound : Nat}
    (hbound : g.size ≤ bound) : total g bound ≤ bound * bound := by
  have hset : ∀ id ∈ Finset.range bound, (g.node id).returns.size ≤ bound := by
    intro id _
    refine ReturnSet.size_le fun r hr => ?_
    exact (hg.lt_of_marked (hg.returns id r hr).2.1).trans_le hbound
  calc total g bound ≤ (Finset.range bound).card • bound := Finset.sum_le_card_nsmul _ _ _ hset
    _ = bound * bound := by rw [Finset.card_range, smul_eq_mul]

theorem Extends.total_eq {x y : Exploration} (h : Extends x y) (bound : Nat) :
    total y.graph bound = total x.graph bound :=
  Finset.sum_congr rfl fun id _ => by rw [(h.marks id).2.2]

theorem Absorbs.total_eq {x y : Exploration} {item : WalkItem} {fresh : List StateId}
    (h : Absorbs x y item fresh) {bound : Nat} (hbound : item.node < bound) :
    total y.graph bound = total x.graph bound + fresh.length := by
  simp only [total, h.size_eq, Finset.sum_add_distrib]
  rw [Finset.sum_ite_eq' (Finset.range bound) item.node, if_pos (Finset.mem_range.mpr hbound)]

/-- A walk that can go on: its items are justified, the exploration is complete up to them, and there is
fuel left. An item that is not dropped adds at least one element to a return set, which allows for one
new item for each of the edges into its state. -/
structure Walking (code : Code) (vectors : Int) (start : State) (bound fuel : Nat)
    (work : List WalkItem) (x : Exploration) : Prop where
  /-- The exploration is valid. -/
  valid : x.Valid code vectors start
  /-- Nothing is missing but what the items still bring. -/
  complete : x.Complete code vectors { work }
  /-- Every item brings what is derivable. -/
  justified : ∀ item ∈ work, item.Justified code vectors start x.graph
  /-- The fuel suffices for the items and for those that they can still add. -/
  funded : work.length + 8 * bound * (bound * bound) ≤ fuel + 8 * bound * total x.graph bound

namespace Walking

variable {bound fuel : Nat} {work work' : List WalkItem} {item : WalkItem} {x y z : Exploration}
  {fresh : List StateId}

/-- There is fuel as long as there is work. -/
theorem eq_nil (h : Walking code vectors start bound 0 work x) (hbound : stateBound ≤ bound) :
    work = [] := by
  have hle := total_le h.valid.consistent (h.valid.consistent.wellFormed.size_le.trans hbound)
  have hmul := Nat.mul_le_mul_left (8 * bound) hle
  have hfunded := h.funded
  exact List.length_eq_zero_iff.mp (by omega)

theorem lt_size (h : Walking code vectors start bound fuel (item :: work) x) :
    item.node < x.graph.size :=
  h.valid.consistent.lt_of_explored (h.justified item List.mem_cons_self).1

theorem absorbs (h : Walking code vectors start bound fuel (item :: work) x)
    (habsorb : x.absorb item.node item.delta = (y, fresh)) : Absorbs x y item fresh :=
  absorbs_of_absorb (h.valid.consistent.wellFormed.nodes_size ▸ h.lt_size) habsorb

/-- An item without new return states is dropped. -/
theorem drop (h : Walking code vectors start bound (fuel + 1) (item :: work) x)
    (hbound : stateBound ≤ bound) (habsorb : x.absorb item.node item.delta = (y, [])) :
    Walking code vectors start bound fuel work y := by
  have ha := h.absorbs habsorb
  have hy := ha.valid h.valid (h.justified item List.mem_cons_self)
  have htotal := ha.total_eq
    (h.lt_size.trans_le (h.valid.consistent.wellFormed.size_le.trans hbound))
  have hfunded := h.funded
  refine ⟨hy, (ha.complete hy.consistent.wellFormed h.complete).settle (.inr rfl),
    fun i hi => ha.justified (h.justified i (List.mem_cons_of_mem _ hi)), ?_⟩
  rw [htotal, List.length_nil, Nat.add_zero]
  rw [List.length_cons] at hfunded
  omega

/-- What the first half of a step leaves for the second. -/
theorem taken (h : Walking code vectors start bound fuel (item :: work) x)
    (habsorb : x.absorb item.node item.delta = (y, fresh)) :
    y.Valid code vectors start ∧
      y.Complete code vectors { work, edges := y.graph.incoming item.node, delta := fresh } ∧
      (∀ e ∈ y.graph.incoming item.node, ∃ a, y.graph.edges[e]? = some a ∧ a.target = item.node) ∧
      (∀ r ∈ fresh, (y.graph.node item.node).returns.contains r = true) ∧
      ∀ i ∈ work, i.Justified code vectors start y.graph := by
  have ha := h.absorbs habsorb
  have hy := ha.valid h.valid (h.justified item List.mem_cons_self)
  exact ⟨hy, ha.complete hy.consistent.wellFormed h.complete,
    fun e he => (hy.consistent.wellFormed.mem_incoming _ e).mp he,
    fun q hq => (ha.returns_iff _ q).mpr (.inr ⟨rfl, ((ha.mem_fresh q).mp hq).1⟩),
    fun i hi => ha.justified (h.justified i (List.mem_cons_of_mem _ hi))⟩

/-- New return states are taken over all edges into the state of the item. -/
theorem carry (h : Walking code vectors start bound (fuel + 1) (item :: work) x)
    (hbound : stateBound ≤ bound) (habsorb : x.absorb item.node item.delta = (y, fresh))
    (hfresh : fresh ≠ [])
    (hedges : walkEdges code fresh (y.graph.incoming item.node) y work = (z, work', none)) :
    Walking code vectors start bound fuel work' z ∧ Keeps x z := by
  obtain ⟨hy, hcy, hes, hdelta, hwork⟩ := h.taken habsorb
  have ha := h.absorbs habsorb
  have htotal := ha.total_eq
    (h.lt_size.trans_le (h.valid.consistent.wellFormed.size_le.trans hbound))
  obtain ⟨hz, hext, hcz, hworkz, hlen⟩ := walkEdges_spec hy hcy hes hdelta hwork hedges
  have hin : (y.graph.incoming item.node).length ≤ 8 * bound :=
    (hy.consistent.wellFormed.incoming_length_le item.node).trans
      (Nat.mul_le_mul_left 8 (hy.consistent.wellFormed.size_le.trans hbound))
  have hpos : 1 ≤ fresh.length := List.length_pos_of_ne_nil hfresh
  have hstep : 8 * bound * total x.graph bound + 8 * bound ≤ 8 * bound * total z.graph bound := by
    rw [hext.total_eq, htotal, ← Nat.mul_succ]
    exact Nat.mul_le_mul_left _ (by omega)
  have hfunded := h.funded
  rw [List.length_cons] at hfunded
  exact ⟨⟨hz, hcz, hworkz, by omega⟩, ha.keeps.trans hext.keeps⟩

end Walking

/-- A walk with enough fuel pays its debt. -/
theorem walk_spec {bound : Nat} (hbound : stateBound ≤ bound) {fuel : Nat} {work : List WalkItem}
    {x y : Exploration} (hx : Walking code vectors start bound fuel work x)
    (h : walk code fuel work x = (y, none)) :
    y.Valid code vectors start ∧ y.Complete code vectors {} ∧ Keeps x y := by
  induction fuel generalizing x work with
  | zero =>
    obtain rfl := hx.eq_nil hbound
    simp only [walk, Prod.mk.injEq, and_true] at h
    subst h
    exact ⟨hx.valid, hx.complete, .refl x⟩
  | succ fuel ih =>
    cases work with
    | nil =>
      simp only [walk, Prod.mk.injEq, and_true] at h
      subst h
      exact ⟨hx.valid, hx.complete, .refl x⟩
    | cons item work =>
      rw [walk] at h
      generalize habsorb : x.absorb item.node item.delta = p at h
      obtain ⟨z, fresh⟩ := p
      cases fresh with
      | nil =>
        obtain ⟨hy, hcy, hkeeps⟩ := ih (hx.drop hbound habsorb) h
        exact ⟨hy, hcy, (hx.absorbs habsorb).keeps.trans hkeeps⟩
      | cons r rest =>
        dsimp only at h
        split at h
        · next w work' hedges =>
          obtain ⟨hw, hcarried⟩ := hx.carry hbound habsorb (List.cons_ne_nil r rest) hedges
          obtain ⟨hy, hcy, hkeeps⟩ := ih hw h
          exact ⟨hy, hcy, hcarried.trans hkeeps⟩
        · simp at h

/-- A walk from one item. -/
theorem walking_of_item {x : Exploration} {item : WalkItem} (hx : x.Valid code vectors start)
    (hc : x.Complete code vectors { work := [item] })
    (hitem : item.Justified code vectors start x.graph) :
    Walking code vectors start stateBound walkBound [item] x where
  valid := hx
  complete := hc
  justified i hi := by rwa [List.mem_singleton.mp hi]
  funded := by
    rw [walkBound, List.length_singleton, Nat.mul_assoc 8, Nat.mul_assoc stateBound stateBound]
    omega

theorem propagate_spec {x y : Exploration} {id : StateId} {rets : List StateId}
    (hx : x.Valid code vectors start) (hc : x.Complete code vectors { work := [⟨id, rets⟩] })
    (hitem : (⟨id, rets⟩ : WalkItem).Justified code vectors start x.graph)
    (h : x.propagate code id rets = (y, none)) :
    y.Valid code vectors start ∧ y.Complete code vectors {} ∧ Keeps x y :=
  walk_spec le_rfl (walking_of_item hx hc hitem) h

/-! ### Serving the queues -/

/-- What serving a queue amounts to; `rest` is the exploration without the entry that is served. -/
inductive Service where
  | walk (rest : Exploration) (item : WalkItem)
  | stitch (rest : Exploration) (edge : Edge) (returns : List StateId)
  | nothing (rest : Exploration)

def Service.rest : Service → Exploration
  | .walk rest _ | .stitch rest _ _ | .nothing rest => rest

def Service.perform (code : Code) : Service → Exploration × Option RunError
  | .walk rest item => rest.propagate code item.node item.delta
  | .stitch rest a rets => rest.stitch code a rets
  | .nothing rest => (rest, none)

/-- Taking the return set of the target of an edge over the edge. -/
def serviceOfEdge (x : Exploration) (e : EdgeId) : Service :=
  if (x.graph.node (x.graph.edge e).target).returns.size = 0 then .nothing x
  else if (x.graph.edge e).kind.entersFrame then
    .stitch (x.note (.propagatingEdge e (x.graph.edge e).kind
      (x.graph.node (x.graph.edge e).target).returns.size)) (x.graph.edge e)
      (x.graph.node (x.graph.edge e).target).returns.items
  else
    .walk (x.note (.propagatingEdge e (x.graph.edge e).kind
      (x.graph.node (x.graph.edge e).target).returns.size))
      ⟨(x.graph.edge e).source, (x.graph.node (x.graph.edge e).target).returns.items⟩

/-- What serving the queues amounts to. -/
def service (x : Exploration) : Service :=
  match x.newReturns, x.newEdges with
  | id :: rest, _ =>
      .walk ({ x with newReturns := rest, pendingReturns := x.pendingReturns - 1 }.note
        (.propagatingReturn id)) ⟨id, [id]⟩
  | [], e :: rest => { x with newEdges := rest, pendingEdges := x.pendingEdges - 1 }.serviceOfEdge e
  | [], [] => .nothing x

theorem propagateEdge_eq (x : Exploration) (code : Code) (e : EdgeId) :
    x.propagateEdge code e = (x.serviceOfEdge e).perform code := by
  unfold propagateEdge serviceOfEdge
  dsimp only
  split
  · rfl
  · split <;> rfl

theorem propagateNext_eq (x : Exploration) (code : Code) :
    x.propagateNext code = x.service.perform code := by
  unfold propagateNext service
  generalize x.newReturns = returns
  generalize x.newEdges = edges
  cases returns with
  | cons id rest => simp only [propagateReturn, Service.perform]
  | nil =>
    cases edges with
    | cons e rest => exact propagateEdge_eq _ _ _
    | nil => rw [Service.perform]

/-- What serving a queue changes: an entry is gone, and edges begin to wait when they are added. -/
structure Serves (x y : Exploration) : Prop where
  /-- The same states are explored. -/
  explored_eq : ∀ id, (y.graph.node id).explored = (x.graph.node id).explored
  /-- Less waits, unless there are new edges. -/
  count_lt : y.newReturns.length + y.newEdges.length + x.graph.edges.size + 1 ≤
    x.newReturns.length + x.newEdges.length + y.graph.edges.size

theorem rest_serviceOfEdge (x : Exploration) (e : EdgeId) :
    (x.serviceOfEdge e).rest.graph = x.graph ∧ (x.serviceOfEdge e).rest.newReturns = x.newReturns ∧
      (x.serviceOfEdge e).rest.newEdges = x.newEdges := by
  unfold serviceOfEdge
  split
  · exact ⟨rfl, rfl, rfl⟩
  · split <;> exact ⟨rfl, rfl, rfl⟩

/-- An entry is gone before it is served. -/
theorem rest_service {x : Exploration} (hsome : x.newReturns ≠ [] ∨ x.newEdges ≠ []) :
    x.service.rest.graph = x.graph ∧
      x.service.rest.newReturns.length + x.service.rest.newEdges.length + 1 =
        x.newReturns.length + x.newEdges.length := by
  unfold service
  split
  · next hqueue =>
    refine ⟨rfl, ?_⟩
    rw [hqueue, List.length_cons]
    exact Nat.add_right_comm _ _ _
  · next e rest hreturns hqueue =>
    obtain ⟨hgraph, hreturns', hedges⟩ := rest_serviceOfEdge
      { x with newEdges := rest, pendingEdges := x.pendingEdges - 1 } e
    refine ⟨hgraph, ?_⟩
    rw [hreturns', hedges, hqueue]
    rfl
  · next hreturns hedges => exact absurd hsome (by simp [hreturns, hedges])

theorem Keeps.serves {x y : Exploration} (hsome : x.newReturns ≠ [] ∨ x.newEdges ≠ [])
    (h : Keeps x.service.rest y) : Serves x y := by
  obtain ⟨hgraph, hlength⟩ := rest_service hsome
  refine ⟨fun id => (h.explored_eq id).trans (by rw [hgraph]), ?_⟩
  have hcount := h.count_le
  have hreturns := congrArg List.length h.newReturns_eq
  rw [hgraph] at hcount
  omega

/-- A service that the facts recorded so far justify: it pays for what the entry stood for. -/
def Service.Justified (code : Code) (vectors : Int) (start : State) : Service → Prop
  | .walk rest item => rest.Valid code vectors start ∧
      rest.Complete code vectors { work := [item] } ∧ item.Justified code vectors start rest.graph
  | .stitch rest a rets => rest.Valid code vectors start ∧ a.kind.entersFrame = true ∧
      (∀ r ∈ rets, (rest.graph.node a.target).returns.contains r = true) ∧
      ∃ e, rest.graph.edges[e]? = some a ∧ rest.Complete code vectors { edges := [e], delta := rets }
  | .nothing rest => rest.Valid code vectors start ∧ rest.Complete code vectors {}

/-- An edge over which the whole set of its target has been taken need not wait. -/
theorem Complete.dropEdge {x x₁ : Exploration} {e : EdgeId} {rest : List EdgeId} {a : Edge} {d : Debt}
    (hc : x.Complete code vectors {}) (hqueue : x.newEdges = e :: rest)
    (hgraph : x₁.graph = x.graph) (hreturns : x₁.newReturns = x.newReturns)
    (hedges : x₁.newEdges = rest) (hd : d.exploring = none) (he : x.graph.edges[e]? = some a)
    (hpaid : ∀ r, (x.graph.node a.target).returns.contains r = true →
      x.graph.Handed code a r ∨ d.Owes e a r) : x₁.Complete code vectors d where
  expanded id hid := by
    rw [hgraph] at hid ⊢
    rw [hd]
    exact hc.expanded id hid
  marked r hr := by
    rw [hgraph] at hr ⊢
    rw [hreturns]
    rcases hc.marked r hr with hself | hwaits | ⟨i, hi, -⟩
    · exact .inl hself
    · exact .inr (.inl hwaits)
    · exact absurd hi List.not_mem_nil
  handed f b hb r hr := by
    rw [hgraph] at hb hr ⊢
    rw [hedges]
    rcases hc.handed f b hb r hr with hh | hwaits | ⟨-, i, hi, -⟩ | ⟨hf, -⟩
    · exact .inl hh
    · rw [hqueue] at hwaits
      rcases List.mem_cons.mp hwaits with rfl | hwaits
      · obtain rfl : a = b := Option.some.inj (he.symm.trans hb)
        exact (hpaid r hr).imp_right .inr
      · exact .inr (.inl hwaits)
    · exact absurd hi List.not_mem_nil
    · exact absurd hf List.not_mem_nil

/-- A return state that was taken from the queue is put in its own return set. -/
theorem service_justified_of_return {x : Exploration} (hx : x.Valid code vectors start)
    (hc : x.Complete code vectors {}) {r : StateId} {rest : List StateId}
    (hqueue : x.newReturns = r :: rest) (pending : Nat) :
    (Service.walk ({ x with newReturns := rest, pendingReturns := pending }.note
      (.propagatingReturn r)) ⟨r, [r]⟩).Justified code vectors start := by
  have hg := hx.consistent
  have hmark := hx.newReturns_marked r (hqueue ▸ List.mem_cons_self)
  obtain ⟨hexp, hend⟩ := hg.kinds r hmark
  refine ⟨⟨hg, hx.covered, hx.newEdges_lt, fun q hq =>
    hx.newReturns_marked q (hqueue ▸ List.mem_cons_of_mem _ hq)⟩, ⟨hc.expanded, ?_, ?_⟩, hexp, ?_⟩
  · intro q hq
    rcases hc.marked q hq with hself | hwaits | ⟨i, hi, -⟩
    · exact .inl hself
    · rw [hqueue] at hwaits
      rcases List.mem_cons.mp hwaits with rfl | hwaits
      · exact .inr (.inr ⟨_, List.mem_singleton_self _, rfl, List.mem_singleton_self _⟩)
      · exact .inr (.inl hwaits)
    · exact absurd hi List.not_mem_nil
  · intro e a ha q hq
    rcases hc.handed e a ha q hq with hh | hwaits | ⟨-, i, hi, -⟩ | ⟨he, -⟩
    · exact .inl hh
    · exact .inr (.inl hwaits)
    · exact absurd hi List.not_mem_nil
    · exact absurd he List.not_mem_nil
  · intro q hq
    rw [List.mem_singleton.mp hq]
    exact ⟨hmark, .here (hg.reached r (hg.lt_of_explored hexp)) hend⟩

/-- The return set of the target of an edge that was taken from the queue goes over the edge. -/
theorem service_justified_of_edge {x : Exploration} (hx : x.Valid code vectors start)
    (hc : x.Complete code vectors {}) {e : EdgeId} {rest : List EdgeId}
    (hqueue : x.newEdges = e :: rest) (pending : Nat) :
    (({ x with newEdges := rest, pendingEdges := pending } : Exploration).serviceOfEdge e).Justified
      code vectors start := by
  have he := Graph.getElem?_of_lt (hx.newEdges_lt e (hqueue ▸ List.mem_cons_self))
  obtain ⟨hsource, hedge⟩ := hx.consistent.edges _ (Array.mem_of_getElem? he)
  have hrest : ∀ f ∈ rest, f < x.graph.edges.size :=
    fun f hf => hx.newEdges_lt f (hqueue ▸ List.mem_cons_of_mem _ hf)
  have hitems : ∀ r, r ∈ (x.graph.node (x.graph.edge e).target).returns.items ↔
      (x.graph.node (x.graph.edge e).target).returns.contains r = true := ReturnSet.mem_items _
  unfold serviceOfEdge
  dsimp only
  split
  · next hempty =>
    refine ⟨⟨hx.consistent, hx.covered, hrest, hx.newReturns_marked⟩,
      hc.dropEdge hqueue rfl rfl rfl rfl he fun r hr => ?_⟩
    rw [(ReturnSet.size_eq_zero_iff _).mp hempty r] at hr
    exact absurd hr Bool.false_ne_true
  · split
    · next hframe =>
      refine ⟨⟨hx.consistent, hx.covered, hrest, hx.newReturns_marked⟩, hframe,
        fun r hr => (hitems r).mp hr, e, he,
        hc.dropEdge hqueue rfl rfl rfl rfl he fun r hr => ?_⟩
      exact .inr (.inr ⟨List.mem_singleton_self e, (hitems r).mpr hr⟩)
    · next hframe =>
      have hplain : (x.graph.edge e).kind.entersFrame = false := by simpa using hframe
      refine ⟨⟨hx.consistent, hx.covered, hrest, hx.newReturns_marked⟩,
        hc.dropEdge hqueue rfl rfl rfl rfl he fun r hr => ?_, hsource, fun r hr => ?_⟩
      · exact .inr (.inl ⟨hplain, _, List.mem_singleton_self _, rfl, (hitems r).mpr hr⟩)
      · obtain ⟨-, hkind, hret⟩ := hx.consistent.returns _ r ((hitems r).mp hr)
        exact ⟨hkind, .back hedge hplain hret⟩

theorem service_justified {x : Exploration} (hx : x.Valid code vectors start)
    (hc : x.Complete code vectors {}) : x.service.Justified code vectors start := by
  unfold service
  split
  · next hqueue => exact service_justified_of_return hx hc hqueue _
  · next hqueue => exact service_justified_of_edge hx hc hqueue _
  · exact ⟨hx, hc⟩

theorem Service.Justified.perform {v : Service} (hv : v.Justified code vectors start) {y : Exploration}
    (h : v.perform code = (y, none)) :
    y.Valid code vectors start ∧ y.Complete code vectors {} ∧ Keeps v.rest y := by
  cases v with
  | walk rest item =>
    obtain ⟨hx, hc, hitem⟩ := hv
    exact propagate_spec hx hc hitem h
  | stitch rest a rets =>
    obtain ⟨hx, hframe, hrets, e, he, hc⟩ := hv
    obtain ⟨hy, hext, hhanded⟩ := stitch_spec hx (Array.mem_of_getElem? he) hframe hrets h
    exact ⟨hy, ((hc.extend hx hy hext).payEdge (hext.grows.edge_eq e a he) hhanded).settle (.inl rfl),
      hext.keeps⟩
  | nothing rest =>
    obtain rfl := congrArg Prod.fst h
    exact ⟨hv.1, hv.2, .refl _⟩

/-- Serving a queue that is not empty keeps an exploration valid and complete. -/
theorem propagateNext_spec {x y : Exploration} (hx : x.Valid code vectors start)
    (hc : x.Complete code vectors {}) (hsome : x.newReturns ≠ [] ∨ x.newEdges ≠ [])
    (h : x.propagateNext code = (y, none)) :
    y.Valid code vectors start ∧ y.Complete code vectors {} ∧ Serves x y := by
  rw [propagateNext_eq] at h
  obtain ⟨hy, hcy, hkeeps⟩ := (service_justified hx hc).perform h
  exact ⟨hy, hcy, hkeeps.serves hsome⟩

end Exploration

end StackDepth
