import Mathlib
import StackDepth.Proofs.Analysis.Build

/-!
# The graph at the fixpoint

A graph that records exactly the derivable facts can be read without the rules. The return set of a
state holds the marked states that its edges lead to without entering a frame. A return edge stands for
a call or an interrupt and a return state of what it enters. All other edges are the transitions that
states have by themselves.

Main statements:

* `Graph.Exact.returns_iff`, `Graph.Exact.return_edge_iff`, `Graph.Exact.own_edge_iff`: the three parts;
* `Building.return_stitching_exact`: they hold whenever building ends with nothing waiting.
-/

namespace StackDepth

open Exploration (handlerState resumedState returnEdgeKind Leads)

variable {code : Code} {vectors : Int} {start : State}

/-- One edge that enters no frame. -/
def Graph.PlainEdge (g : Graph) (u v : StateId) : Prop :=
  ∃ k : EdgeKind, k.entersFrame = false ∧ ⟨u, v, k⟩ ∈ g.edges

/-- The source of the edge `a` resumes in the state `s` after the return state `r`, and `k` is the kind of
the edge to it. -/
structure Graph.Resumes (code : Code) (g : Graph) (a : Edge) (r : StateId) (k : EdgeKind)
    (s : State) : Prop where
  /-- A call resumes behind the call, an interrupt where it fired. -/
  address : a.kind = .call ∧ code.next (g.pc a.source) = .ok s.pc ∨
    a.kind = .interrupt ∧ s.pc = g.pc a.source
  /-- The rest of the state is that of the return state; a return from an interrupt enables interrupts
  and has an edge of its own kind. -/
  state : (g.node r).kind = .ret ∧ k = .ret ∧ s = { g.state r with pc := s.pc } ∨
    (g.node r).kind = .reti ∧ k = .reti ∧ s = { (g.state r).setFlag Flag.I .yes with pc := s.pc }

/-! ### Rules read backwards -/

theorem derivable_edge_cases {s t : State} {k : EdgeKind}
    (h : Derivable code vectors start (.edge s k t)) :
    code.Move vectors s k t ∨
      ∃ (v r : State) (l : EdgeKind) (kind : StateKind) (a : Address),
        Derivable code vectors start (.edge s l v) ∧ l.entersFrame = true ∧
        Derivable code vectors start (.returns v r) ∧ code.Ends r kind ∧ code.resume l s = .ok a ∧
        k = returnEdgeKind kind ∧ t = resumedState r kind a := by
  cases h with
  | move _ hmove => exact .inl hmove
  | resume he hk hr hend ha => exact .inr ⟨_, _, _, _, _, he, hk, hr, hend, ha, rfl, rfl⟩

theorem returnEdgeKind_eq (k : StateKind) :
    returnEdgeKind k = .ret ∨ returnEdgeKind k = .reti := by
  unfold returnEdgeKind
  split
  · exact .inr rfl
  · exact .inl rfl

/-- Resuming, with its two kinds of frames and its two kinds of returns told apart. -/
theorem Graph.resumes_iff {g : Graph} {a : Edge} {r : StateId} {k : EdgeKind} {s : State}
    (hframe : a.kind.entersFrame = true) (hr : (g.node r).kind ≠ .normal) :
    g.Resumes code a r k s ↔
      ∃ addr, code.resume a.kind (g.state a.source) = .ok addr ∧
        k = returnEdgeKind (g.node r).kind ∧
        s = resumedState (g.state r) (g.node r).kind addr := by
  have hkind : a.kind = .call ∨ a.kind = .interrupt := by
    revert hframe
    cases a.kind <;> simp [EdgeKind.entersFrame]
  have haddress : ∀ addr, code.resume a.kind (g.state a.source) = .ok addr ↔
      a.kind = .call ∧ code.next (g.pc a.source) = .ok addr ∨
        a.kind = .interrupt ∧ addr = g.pc a.source := by
    intro addr
    rcases hkind with h | h
    · simp [Code.resume, h, Graph.pc]
    · simp [Code.resume, h, Graph.pc, eq_comm]
  constructor
  · rintro ⟨haddr, hstate⟩
    refine ⟨s.pc, (haddress _).mpr haddr, ?_⟩
    rcases hstate with ⟨hk, rfl, hs⟩ | ⟨hk, rfl, hs⟩
    · rw [hk]
      exact ⟨rfl, hs⟩
    · rw [hk]
      exact ⟨rfl, hs⟩
  · rintro ⟨addr, haddr, rfl, rfl⟩
    refine ⟨(haddress _).mp haddr, ?_⟩
    cases hk : (g.node r).kind with
    | normal => exact absurd hk hr
    | ret => exact .inl ⟨rfl, rfl, rfl⟩
    | reti => exact .inr ⟨rfl, rfl, rfl⟩

namespace Graph.Exact

variable {g : Graph}

/-- An edge that is derivable between two nodes is in the graph. -/
theorem mem_edges_iff (hg : g.Exact code vectors start) {u v : StateId} (hu : u < g.size)
    (hv : v < g.size) (k : EdgeKind) :
    ⟨u, v, k⟩ ∈ g.edges ↔ Derivable code vectors start (.edge (g.state u) k (g.state v)) := by
  have hwf := hg.consistent.wellFormed
  refine ⟨fun h => (hg.consistent.edges _ h).2, fun h => ?_⟩
  obtain ⟨a, ha, hs, rfl, ht⟩ := hg.recorded _ h
  obtain rfl := hwf.state_injective (hwf.source_lt a ha) hu hs
  obtain rfl := hwf.state_injective (hwf.target_lt a ha) hv ht
  exact ha

theorem lt_of_contains (hg : g.Exact code vectors start) {n r : StateId}
    (h : (g.node n).returns.contains r = true) : n < g.size ∧ r < g.size :=
  ⟨hg.consistent.lt_of_explored (hg.consistent.returns n r h).1,
    hg.consistent.lt_of_marked (hg.consistent.returns n r h).2.1⟩

theorem contains_iff (hg : g.Exact code vectors start) {n r : StateId} (hn : n < g.size)
    (hr : r < g.size) : (g.node n).returns.contains r = true ↔
      Derivable code vectors start (.returns (g.state n) (g.state r)) := by
  have hwf := hg.consistent.wellFormed
  refine ⟨fun h => (hg.consistent.returns n r h).2.2, fun h => ?_⟩
  obtain ⟨n', r', hcontains, hs, ht⟩ := hg.recorded _ h
  obtain ⟨hn', hr'⟩ := hg.lt_of_contains hcontains
  obtain rfl := hwf.state_injective hn' hn hs
  obtain rfl := hwf.state_injective hr' hr ht
  exact hcontains

theorem exists_of_reached (hg : g.Exact code vectors start) {s : State}
    (h : Derivable code vectors start (.reached s)) : ∃ id < g.size, g.state id = s :=
  hg.recorded _ h

theorem marked_iff (hg : g.Exact code vectors start) {id : StateId} (hid : id < g.size)
    {k : StateKind} (hk : k ≠ .normal) : (g.node id).kind = k ↔ code.Ends (g.state id) k := by
  refine ⟨fun h => ?_, hg.marked id hid k⟩
  rw [← h]
  exact (hg.consistent.kinds id (h ▸ hk)).2

/-- Paths of edges that enter no frame are paths of derivable transitions. -/
theorem plainPath_iff (hg : g.Exact code vectors start) {n r : StateId} (hn : n < g.size)
    (hr : r < g.size) : Relation.ReflTransGen g.PlainEdge n r ↔
      Relation.ReflTransGen (PlainStep code vectors start) (g.state n) (g.state r) := by
  have hwf := hg.consistent.wellFormed
  constructor
  · intro h
    induction h with
    | refl => exact .refl
    | tail _ hedge ih =>
      obtain ⟨k, hk, hmem⟩ := hedge
      exact (ih (hwf.source_lt _ hmem)).tail ⟨k, hk, (hg.consistent.edges _ hmem).2⟩
  · intro h
    generalize hs : g.state r = s at h
    induction h generalizing r with
    | refl =>
      obtain rfl := hwf.state_injective hr hn hs
      exact .refl
    | tail _ hedge ih =>
      obtain ⟨k, hk, hder⟩ := hedge
      obtain ⟨m, hm, rfl⟩ := hg.exists_of_reached hder.grounded
      rw [← hs] at hder
      exact (ih hm rfl).tail ⟨k, hk, (hg.mem_edges_iff hm hr k).mpr hder⟩

/-- The return set of a state holds the marked states that its edges lead to without entering a
frame. -/
theorem returns_iff (hg : g.Exact code vectors start) {n : StateId} (hn : n < g.size) (r : StateId) :
    (g.node n).returns.contains r = true ↔
      Relation.ReflTransGen g.PlainEdge n r ∧ (g.node r).kind ≠ .normal := by
  constructor
  · intro h
    obtain ⟨-, hr⟩ := hg.lt_of_contains h
    have hret := (hg.contains_iff hn hr).mp h
    exact ⟨(hg.plainPath_iff hn hr).mpr hret.walked, (hg.consistent.returns n r h).2.1⟩
  · rintro ⟨hpath, hkind⟩
    have hr := hg.consistent.lt_of_marked hkind
    rw [hg.contains_iff hn hr, derivable_returns_iff (hg.consistent.reached n hn)]
    exact ⟨(hg.plainPath_iff hn hr).mp hpath, _, (hg.consistent.kinds r hkind).2⟩

/-- A return edge stands for an edge that enters a frame and a return state of what it enters. -/
theorem return_edge_iff (hg : g.Exact code vectors start) {u : StateId} (hu : u < g.size)
    {k : EdgeKind} (hk : k = .ret ∨ k = .reti) (s : State) :
    (∃ t, ⟨u, t, k⟩ ∈ g.edges ∧ g.state t = s) ↔
      ∃ a ∈ g.edges, a.source = u ∧ a.kind.entersFrame = true ∧
        ∃ r, (g.node a.target).returns.contains r = true ∧ g.Resumes code a r k s := by
  constructor
  · rintro ⟨t, hmem, rfl⟩
    rcases derivable_edge_cases (hg.consistent.edges _ hmem).2 with
      hmove | ⟨v, r, l, kind, addr, he, hl, hr, hend, ha, hkind, hs⟩
    · rcases hk with rfl | rfl
      · exact absurd rfl hmove.kind_ne.1
      · exact absurd rfl hmove.kind_ne.2
    · obtain ⟨v, hv, rfl⟩ := hg.exists_of_reached (.target he)
      obtain ⟨r, hrlt, rfl⟩ := hg.exists_of_reached hr.grounded.2.1
      have hmark := hg.marked r hrlt kind hend
      refine ⟨⟨u, v, l⟩, (hg.mem_edges_iff hu hv l).mpr he, rfl, hl, r,
        (hg.contains_iff hv hrlt).mpr hr, ?_⟩
      rw [Graph.resumes_iff hl (hmark ▸ hend.ne_normal), hmark]
      exact ⟨addr, ha, hkind, hs⟩
  · rintro ⟨a, ha, rfl, hframe, r, hr, hresumes⟩
    obtain ⟨-, hmark, hret⟩ := hg.consistent.returns _ r hr
    obtain ⟨addr, haddr, rfl, hs⟩ := (Graph.resumes_iff hframe hmark).mp hresumes
    have hder := Derivable.resume (hg.consistent.edges a ha).2 hframe hret
      (hg.consistent.kinds r hmark).2 haddr
    rw [← hs] at hder
    obtain ⟨t, ht, rfl⟩ := hg.exists_of_reached (.target hder)
    exact ⟨t, (hg.mem_edges_iff hu ht _).mpr hder, rfl⟩

/-- Every other edge is a transition that its source has by itself. -/
theorem own_edge_iff (hg : g.Exact code vectors start) {u : StateId} (hu : u < g.size)
    {k : EdgeKind} (hk : k ≠ .ret ∧ k ≠ .reti) (s : State) :
    (∃ t, ⟨u, t, k⟩ ∈ g.edges ∧ g.state t = s) ↔ code.Move vectors (g.state u) k s := by
  have hwf := hg.consistent.wellFormed
  constructor
  · rintro ⟨t, hmem, rfl⟩
    rcases derivable_edge_cases (hg.consistent.edges _ hmem).2 with
      hmove | ⟨v, r, l, kind, addr, -, -, -, -, -, hkind, -⟩
    · exact hmove
    · rcases returnEdgeKind_eq kind with h | h
      · exact absurd (hkind.trans h) hk.1
      · exact absurd (hkind.trans h) hk.2
  · intro hmove
    have hder : Derivable code vectors start (.edge (g.state u) k s) :=
      .move (hg.consistent.reached u hu) hmove
    obtain ⟨t, ht, rfl⟩ := hg.exists_of_reached (.target hder)
    exact ⟨t, (hg.mem_edges_iff hu ht k).mpr hder, rfl⟩

end Graph.Exact

/-- Whenever building ends with nothing waiting, return sets, return edges and all other edges are
exactly what they stand for, and the marks tell how the instructions end. -/
theorem Building.return_stitching_exact {limits : Limits} {around : Surroundings} {b : Building}
    {how : Ending} (hrun : Building.run code limits around start = (b, .ok how))
    (hfrontier : b.work.graph.frontier = []) (hreturns : b.work.newReturns = [])
    (hedges : b.work.newEdges = []) :
    (∀ n < b.work.graph.size, ∀ r, (b.work.graph.node n).returns.contains r = true ↔
      Relation.ReflTransGen b.work.graph.PlainEdge n r ∧ (b.work.graph.node r).kind ≠ .normal) ∧
    (∀ u < b.work.graph.size, ∀ k, k = .ret ∨ k = .reti → ∀ s,
      (∃ t, ⟨u, t, k⟩ ∈ b.work.graph.edges ∧ b.work.graph.state t = s) ↔
        ∃ a ∈ b.work.graph.edges, a.source = u ∧ a.kind.entersFrame = true ∧
          ∃ r, (b.work.graph.node a.target).returns.contains r = true ∧
            b.work.graph.Resumes code a r k s) ∧
    (∀ u < b.work.graph.size, ∀ k, k ≠ .ret ∧ k ≠ .reti → ∀ s,
      (∃ t, ⟨u, t, k⟩ ∈ b.work.graph.edges ∧ b.work.graph.state t = s) ↔
        code.Move limits.vectors (b.work.graph.state u) k s) ∧
    ∀ n < b.work.graph.size, ∀ k, k ≠ .normal →
      ((b.work.graph.node n).kind = k ↔ code.Ends (b.work.graph.state n) k) := by
  have hexact := (Building.run_invariant hrun).exact ⟨hfrontier, hreturns, hedges⟩
  exact ⟨fun n hn r => hexact.returns_iff hn r, fun u hu k hk s => hexact.return_edge_iff hu hk s,
    fun u hu k hk s => hexact.own_edge_iff hu hk s, fun n hn k hk => hexact.marked_iff hn hk⟩

/-- A program that calls a function which returns at once. -/
def callAndReturn : Program :=
  .ofInstructions [{ op := .RCALL, k := 1 }, { op := .BREAK }, { op := .RET }]

/-- The call of the function has a return edge to the state in which it resumes. -/
theorem return_stitching_exact_of_call :
    ∃ b, Building.run callAndReturn.code {} {} .reset = (b, .ok .complete) ∧
      b.work.graph.frontier = [] ∧ b.work.newReturns = [] ∧ b.work.newEdges = [] ∧
      ((∃ t, ⟨0, t, .ret⟩ ∈ b.work.graph.edges ∧
          b.work.graph.state t = { State.reset with pc := 2#16 }) ↔
        ∃ a ∈ b.work.graph.edges, a.source = 0 ∧ a.kind.entersFrame = true ∧
          ∃ r, (b.work.graph.node a.target).returns.contains r = true ∧
            b.work.graph.Resumes callAndReturn.code a r .ret { State.reset with pc := 2#16 }) := by
  have hend : (Building.run callAndReturn.code {} {} .reset).2 = .ok .complete := by decide +kernel
  have hsize : 0 < (Building.run callAndReturn.code {} {} .reset).1.work.graph.size := by
    decide +kernel
  have hlists : (Building.run callAndReturn.code {} {} .reset).1.work.graph.frontier = [] ∧
      (Building.run callAndReturn.code {} {} .reset).1.work.newReturns = [] ∧
      (Building.run callAndReturn.code {} {} .reset).1.work.newEdges = [] := by decide +kernel
  generalize hrun : Building.run callAndReturn.code {} {} .reset = p at hend hsize hlists
  obtain ⟨b, result⟩ := p
  obtain rfl : result = .ok .complete := hend
  obtain ⟨hfrontier, hreturns, hedges⟩ := hlists
  exact ⟨b, rfl, hfrontier, hreturns, hedges,
    (Building.return_stitching_exact hrun hfrontier hreturns hedges).2.1 0 hsize .ret (.inl rfl) _⟩

end StackDepth
