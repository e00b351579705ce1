import Mathlib
import StackDepth.Proofs.Analysis.Exactness
import StackDepth.Proofs.Graph.Witness

/-!
# A report can be checked

A report shows its path and its cycle as steps. The steps are edges of the graph, each leaves from where
the one before it ended, and each is shown with the depth at which it is taken. So a reader of the report
can follow the path from the start state and add up its weights: a bound is reached at the end of the path
and exceeded nowhere on it, and a cycle begins where the path ends and comes back with another depth.

The sum of the weights of a cycle is shown as a word of 64 bits. A cycle has at most twice as many edges as
there are states, so the word is the sum for every graph that fits into a memory.

* `Report.Leads`: what the steps of a path show;
* `Exploration.leads_stepsOf`: the steps of a route;
* `Graph.length_cycle_le`: how long a cycle can be;
* `analyze_report_checkable`: what every report of a complete state space shows.
-/

namespace StackDepth

/-! ### Steps -/

/-- The bytes that steps push in total. -/
def Step.total (steps : List Step) : Int := (steps.map Step.weight).sum

@[simp]
theorem Step.total_nil : Step.total [] = 0 := rfl

@[simp]
theorem Step.total_cons (s : Step) (steps : List Step) :
    Step.total (s :: steps) = s.weight + Step.total steps := List.sum_cons

/-- The step shows an edge: its two states, their program counters, its kind, and the weight that the
kind fixes. -/
structure Step.Shows (g : Graph) (s : Step) (a : Edge) : Prop where
  /-- The state that the edge leaves. -/
  source : s.source = a.source
  /-- The state that it enters. -/
  target : s.target = a.target
  /-- The program counter of the one. -/
  pc : s.pc = g.pc a.source
  /-- The program counter of the other. -/
  targetPc : s.targetPc = g.pc a.target
  /-- The name of the kind. -/
  kind : s.kind = a.kind.name
  /-- The weight that the kind has. -/
  weight : s.weight = a.kind.weight

/-- The steps lead from the state `u`, where the depth is `depth`, to the state `v`. -/
structure Report.Leads (g : Graph) (u : StateId) (depth : Int) (steps : List Step) (v : StateId) :
    Prop where
  /-- Every step is an edge of the graph. -/
  shown : ∀ s ∈ steps, ∃ a ∈ g.edges, s.Shows g a
  /-- Every step leaves from where the one before it ended. -/
  connected : steps.IsChain fun s t => s.target = t.source
  /-- The first step leaves from the state `u`. -/
  first : ∀ s ∈ steps.head?, s.source = u
  /-- The last step ends at the state `v`. -/
  last : ∀ s ∈ steps.getLast?, s.target = v
  /-- Without a step the two states are one. -/
  eq_of_nil : steps = [] → u = v
  /-- Every step is taken at the depth to which the steps before it lead. -/
  depth_eq : ∀ i s, steps[i]? = some s → s.depth = depth + Step.total (steps.take i)

namespace Report.Leads

variable {g : Graph} {u v : StateId} {depth : Int} {steps : List Step}

theorem nil (g : Graph) (u : StateId) (depth : Int) : Leads g u depth [] u where
  shown := by simp
  connected := .nil
  first := by simp
  last := by simp
  eq_of_nil _ := rfl
  depth_eq := by simp

theorem cons {s : Step} {a : Edge} (ha : a ∈ g.edges) (hs : s.Shows g a) (hdepth : s.depth = depth)
    (h : Leads g a.target (depth + s.weight) steps v) : Leads g a.source depth (s :: steps) v where
  shown t ht := by
    rcases List.mem_cons.mp ht with rfl | ht
    · exact ⟨a, ha, hs⟩
    · exact h.shown t ht
  connected := by
    refine List.isChain_cons.mpr ⟨fun t ht => ?_, h.connected⟩
    rw [hs.target, h.first t ht]
  first t ht := by
    obtain rfl : s = t := Option.some.inj ht
    exact hs.source
  last t ht := by
    cases steps with
    | nil =>
      obtain rfl : s = t := Option.some.inj ht
      rw [hs.target, h.eq_of_nil rfl]
    | cons t' rest => exact h.last t (by simpa using ht)
  eq_of_nil hnil := absurd hnil (List.cons_ne_nil s steps)
  depth_eq i t ht := by
    cases i with
    | zero =>
      obtain rfl : s = t := Option.some.inj ht
      simp [hdepth]
    | succ i =>
      rw [List.take_succ_cons, Step.total_cons, h.depth_eq i t ht, add_assoc]

end Report.Leads

namespace Exploration

variable {g : Graph} {u v : StateId} {es : List EdgeId}

@[simp]
theorem total_stepsOf (code : Code) (g : Graph) (depth : Int) (es : List EdgeId) :
    Step.total (stepsOf code g depth es) = g.weightOf es := by
  induction es generalizing depth with
  | nil => rfl
  | cons e es ih => rw [stepsOf, Step.total_cons, ih, Graph.weightOf_cons]; rfl

theorem take_stepsOf (code : Code) (g : Graph) (depth : Int) (es : List EdgeId) (n : Nat) :
    (stepsOf code g depth es).take n = stepsOf code g depth (es.take n) := by
  induction es generalizing depth n with
  | nil => simp [stepsOf]
  | cons e es ih =>
    cases n with
    | zero => rfl
    | succ n => rw [stepsOf, List.take_succ_cons, ih, List.take_succ_cons, stepsOf]

theorem shows_stepOf (code : Code) (g : Graph) (depth : Int) (e : EdgeId) :
    (stepOf code g depth e).Shows g (g.edge e) :=
  ⟨rfl, rfl, rfl, rfl, rfl, rfl⟩

/-- A route as steps. -/
theorem leads_stepsOf (code : Code) (h : g.Route u es v) (depth : Int) :
    Report.Leads g u depth (stepsOf code g depth es) v := by
  induction es generalizing u depth with
  | nil =>
    obtain rfl : u = v := h
    exact .nil g u depth
  | cons e es ih =>
    obtain ⟨he, rfl, hrest⟩ := h
    exact .cons (Graph.edge_mem he) (shows_stepOf code g depth e) rfl (ih hrest _)

end Exploration

/-! ### Routes of the heaviest path -/

namespace Graph

variable {g : Graph}

/-- The beginning of a route is a route. -/
theorem Route.take {u v : StateId} {es : List EdgeId} (h : g.Route u es v) (n : Nat) :
    ∃ t, g.Route u (es.take n) t := by
  induction es generalizing u n with
  | nil => exact ⟨u, by rw [List.take_nil]; rfl⟩
  | cons e es ih =>
    obtain ⟨he, hsource, hrest⟩ := h
    cases n with
    | zero => exact ⟨u, rfl⟩
    | succ n =>
      obtain ⟨t, ht⟩ := ih hrest n
      exact ⟨t, he, hsource, ht⟩

/-- The path of a bound is a heaviest route from the start state; the cycle of the other answer is a
closed route that weighs something, and the approach is a route to it. -/
theorem maxPath_routes (hg : g.WellFormed) (heden : g.eden < g.size)
    (hreach : ∀ u < g.size, Relation.ReflTransGen g.Arrow g.eden u) :
    match g.maxPath with
    | .bounded depth path =>
        (∃ t, g.Route g.eden path t) ∧ g.weightOf path = depth ∧
          ∀ t es, g.Route g.eden es t → g.weightOf es ≤ depth
    | .unbounded approach cycle =>
        ∃ u, g.Route g.eden approach u ∧ g.Route u cycle u ∧ g.weightOf cycle ≠ 0 := by
  obtain ⟨hl, hall⟩ := layered_components hg
  have hsweep := sweep_spec hg hl hall (i := 0) List.drop_zero (swept_fresh g g.components)
  have hbounds := maxPath_spec hg heden
  rw [maxPath] at hbounds ⊢
  generalize g.sweep (g.componentOf g.components) 0 g.components
    { potentials := .fresh g.size, value := Array.replicate g.size 0 } = result
    at hsweep hbounds ⊢
  rcases result with conflict | s
  · obtain ⟨i, c, hconflict⟩ := hsweep
    have hlt := (hl.component hg hall hconflict.component).lt _ hconflict.root_mem
    obtain ⟨approach, cycle, heq, happroach, -, hcycle, hweight⟩ :=
      hconflict.unboundedBy_spec hg hl hall heden (hreach _ hlt)
    dsimp only
    rw [heq]
    exact ⟨_, happroach, hcycle, hweight⟩
  · dsimp only at hsweep hbounds ⊢
    rw [Nat.zero_add] at hsweep
    obtain ⟨c, hc, hec⟩ := hall g.eden heden
    obtain ⟨i, hi⟩ := List.mem_iff_getElem?.mp hc
    have hilt := (List.getElem?_eq_some_iff.mp hi).1
    obtain ⟨t, hroute, hweight⟩ := followExits_spec hg hl hall hsweep hi hec (Nat.lt_succ_of_lt hilt)
    exact ⟨⟨t, hroute⟩, hweight, fun t es h => hbounds.2.1 t _ h.walk⟩

/-! ### The length of a cycle -/

theorem length_retrace_le (g : Graph) (trail : Trail) (src : StateId) (fuel : Nat) (id : StateId)
    (path : List EdgeId) : (g.retrace trail src fuel id path).length ≤ fuel + path.length := by
  induction fuel generalizing id path with
  | zero => simp [retrace]
  | succ fuel ih =>
    rw [retrace]
    split
    · omega
    · split
      · next e _ =>
        have hrest := ih (g.edge e).source (e :: path)
        rw [List.length_cons] at hrest
        omega
      · omega

theorem length_shortestPath_le (g : Graph) (allowed : StateId → Bool) (src dst : StateId) :
    (g.shortestPath allowed src dst).length ≤ g.size + 1 := by
  unfold shortestPath
  split
  · simp
  · split
    · exact g.length_retrace_le _ src (g.size + 1) dst []
    · simp

/-- A cycle goes out along one path of a search and back along another. -/
theorem length_cycle_le {approach cycle : List EdgeId} (h : g.maxPath = .unbounded approach cycle) :
    cycle.length ≤ 2 * g.size + 3 := by
  unfold maxPath at h
  dsimp only at h
  split at h
  · next conflict _ =>
    rw [unboundedBy] at h
    obtain ⟨-, rfl⟩ := MaxPath.unbounded.inj h
    have hback := g.length_shortestPath_le
      (fun t => (g.componentOf g.components)[t]? ==
        (g.componentOf g.components)[(g.edge conflict.edge).target]?)
      (g.edge conflict.edge).target conflict.root
    have htree := fun id => g.length_retrace_le conflict.potentials.via conflict.root (g.size + 1) id []
    have hsource := htree (g.edge conflict.edge).source
    have htarget := htree (g.edge conflict.edge).target
    simp only [List.length_nil, Nat.add_zero] at hsource htarget
    dsimp only
    split
    · rw [List.length_append]
      omega
    · rw [List.length_append, List.length_cons]
      omega
  · simp at h

theorem natAbs_weightOf_le (g : Graph) (es : List EdgeId) : (g.weightOf es).natAbs ≤ 2 * es.length := by
  induction es with
  | nil => simp
  | cons e es ih =>
    have hedge : (g.edge e).weight.natAbs ≤ 2 := by
      unfold Edge.weight EdgeKind.weight
      split <;> decide
    rw [weightOf_cons, List.length_cons]
    omega

end Graph

/-! ### Reports -/

theorem wrap64_of_natAbs_lt {n : Int} (h : n.natAbs < 2 ^ 63) : wrap64 n = n := by
  unfold wrap64
  rw [Int.bmod_def]
  omega

theorem Report.cycleWeight_eq (r : Report) : r.cycleWeight = wrap64 (Step.total r.cycle) := by
  unfold Report.cycleWeight Step.total
  congr 1
  induction r.cycle with
  | nil => rfl
  | cons s steps ih => rw [List.foldr_cons, List.map_cons, List.sum_cons, ih]

/-- Every report with a bound or a cycle can be checked. All interned states can be reached from the start
state along edges. The steps of the path are connected edges from the start state, shown with their
depths. If there is a bound, the path leads to it, and no part of the path exceeds it. Otherwise the cycle
is not empty, goes on where the path ends, and comes back there, and its weight is not zero; as a number
of 64 bits it cannot wrap around to zero in a graph of up to `2 ^ 60` states. -/
theorem analyze_report_checkable {code : Code} {limits : Limits} {around : Surroundings}
    {start : State} {x : Exploration} {r : Report}
    (hrun : analyze code limits around start = (x, .ok r))
    (hr : r.outcome = .bounded ∨ r.outcome = .unbounded) :
    x.graph.state x.graph.eden = start ∧
    (∀ id < x.graph.size, Relation.ReflTransGen x.graph.Arrow x.graph.eden id) ∧
    ∃ u, Report.Leads x.graph x.graph.eden 0 r.path u ∧
      (r.outcome = .bounded →
        r.cycle = [] ∧ Step.total r.path = r.depth ∧ 0 ≤ r.depth ∧
          ∀ n, Step.total (r.path.take n) ≤ r.depth) ∧
      (r.outcome = .unbounded →
        r.cycle ≠ [] ∧ Report.Leads x.graph u (Step.total r.path) r.cycle u ∧
          Step.total r.cycle ≠ 0 ∧ (x.graph.size ≤ 2 ^ 60 → r.cycleWeight ≠ 0)) := by
  obtain ⟨hexact, rfl⟩ := analyze_complete hrun hr
  have heden := hexact.consistent.eden
  have hreach : ∀ id < x.graph.size, Relation.ReflTransGen x.graph.Arrow x.graph.eden id := by
    intro id hid
    obtain ⟨w, hwalk⟩ := hexact.exists_walk_to hid
    exact hwalk.path
  refine ⟨heden.2, hreach, ?_⟩
  have hroutes := Graph.maxPath_routes hexact.consistent.wellFormed heden.1 hreach
  have hlength : ∀ approach cycle, x.graph.maxPath = .unbounded approach cycle →
      cycle.length ≤ 2 * x.graph.size + 3 := fun _ _ => Graph.length_cycle_le
  rw [Exploration.fullReport]
  dsimp only
  generalize x.graph.maxPath = result at hroutes hlength ⊢
  cases result with
  | bounded depth path =>
    obtain ⟨⟨t, hpath⟩, rfl, hheaviest⟩ := hroutes
    refine ⟨t, Exploration.leads_stepsOf code hpath 0, fun _ => ⟨rfl, ?_, ?_, fun n => ?_⟩, by simp⟩
    · rw [Exploration.total_stepsOf]
    · exact hheaviest _ [] rfl
    · obtain ⟨t', hprefix⟩ := hpath.take n
      rw [Exploration.take_stepsOf, Exploration.total_stepsOf]
      exact hheaviest t' _ hprefix
  | unbounded approach cycle =>
    obtain ⟨u, happroach, hcycle, hweight⟩ := hroutes
    refine ⟨u, Exploration.leads_stepsOf code happroach 0, by simp, fun _ => ⟨?_, ?_, ?_, fun hsize => ?_⟩⟩
    · rintro hnil
      cases cycle with
      | nil => exact hweight rfl
      | cons e es => simp [Exploration.stepsOf] at hnil
    · rw [Exploration.total_stepsOf]
      exact Exploration.leads_stepsOf code hcycle _
    · rwa [Exploration.total_stepsOf]
    · have hbound := x.graph.natAbs_weightOf_le cycle
      have hedges := hlength approach cycle rfl
      rw [Report.cycleWeight_eq]
      dsimp only
      rw [Exploration.total_stepsOf, wrap64_of_natAbs_lt (by omega)]
      exact hweight

/-- A complete state space with a closed walk that weighs something gives a cycle. -/
theorem analyze_of_cycle {code : Code} {limits : Limits} {around : Surroundings} {start : State}
    (hend : (Building.run code limits around start).2 = .ok .complete) {u : StateId}
    (hu : u < (Building.run code limits around start).1.work.graph.size) {w : Int} (hw : w ≠ 0)
    (hcycle : (Building.run code limits around start).1.work.graph.Walk u u w) :
    ∃ x r, analyze code limits around start = (x, .ok r) ∧ r.outcome = .unbounded ∧
      x.graph = (Building.run code limits around start).1.work.graph := by
  obtain ⟨hexact, hanalyze⟩ := analyze_of_complete hend
  refine ⟨_, _, hanalyze, ?_, rfl⟩
  refine (Exploration.fullReport_outcome _ code).resolve_left fun hbounded => ?_
  exact hexact.heights_infinite hu hw hcycle ((Exploration.fullReport_exact hexact).1.mp hbounded)

/-- A program that pushes a byte again and again. -/
def pushForever : Program := .ofInstructions [{ op := .PUSH }, { op := .RJMP, k := -2 }]

/-- The report on a program that pushes a byte again and again shows a cycle that can be checked. -/
theorem analyze_report_checkable_of_loop :
    ∃ x r u, analyze pushForever.code {} {} .reset = (x, .ok r) ∧ r.outcome = .unbounded ∧
      (∀ id < x.graph.size, Relation.ReflTransGen x.graph.Arrow x.graph.eden id) ∧
      Report.Leads x.graph x.graph.eden 0 r.path u ∧ r.cycle ≠ [] ∧
      Report.Leads x.graph u (Step.total r.path) r.cycle u ∧ r.cycleWeight ≠ 0 := by
  have hend : (Building.run pushForever.code {} {} .reset).2 = .ok .complete := by decide +kernel
  have hedges : (Building.run pushForever.code {} {} .reset).1.work.graph.edges =
      #[⟨0, 1, .push⟩, ⟨1, 0, .normal⟩] := by decide +kernel
  have hsize : (Building.run pushForever.code {} {} .reset).1.work.graph.size = 2 := by decide +kernel
  have hcycle : (Building.run pushForever.code {} {} .reset).1.work.graph.Walk 0 0 1 :=
    .cons (v := 1) (k := .push) (hedges ▸ by simp)
      (.cons (v := 0) (k := .normal) (hedges ▸ by simp) (.refl 0))
  obtain ⟨x, r, hrun, hunbounded, hgraph⟩ :=
    analyze_of_cycle hend (hsize ▸ Nat.two_pos) one_ne_zero hcycle
  obtain ⟨-, hreach, u, hpath, -, hrest⟩ := analyze_report_checkable hrun (.inr hunbounded)
  obtain ⟨hne, hleads, -, hweight⟩ := hrest hunbounded
  rw [hgraph, hsize] at hweight
  exact ⟨x, r, u, hrun, hunbounded, hreach, hpath, hne, hleads, hweight (by decide)⟩

end StackDepth
