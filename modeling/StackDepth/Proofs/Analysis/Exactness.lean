import Mathlib
import StackDepth.Analysis.Report
import StackDepth.Proofs.Analysis.CallString
import StackDepth.Proofs.Analysis.Fixpoint
import StackDepth.Proofs.Graph.MaxPath

/-!
# The report is exact for call strings

Configurations have pending frames and are unboundedly many, the graph is finite and has summaries in
their place. At the fixpoint the two agree on states and on heights: a walk in the graph is a walk along
derivable transitions, and these are the weights at which configurations are found. The heaviest path of
the graph is therefore the greatest height of a configuration, and a cycle that weighs something can be
gone round any number of times.

Main statements:

* `Graph.Exact.walk_iff`: walks in the graph and along derivable transitions;
* `Graph.Exact.heights_infinite`: a cycle that weighs something gives infinitely many heights;
* `Exploration.fullReport_exact`: what the report of a complete state space says;
* `analyze_outcome`, `analyze_of_complete`: how an analysis ends that gives a report;
* `analyze_exact`: what the report of an analysis without limits says.
-/

namespace StackDepth

variable {code : Code} {vectors : Int} {start : State}

/-- The heights of the configurations that a start state leads to. -/
def Configuration.heights (code : Code) (vectors : Int) (start : State) : Set Int :=
  { h | ∃ s fs, Reachable code vectors start ⟨s, h, fs⟩ }

/-- A closed walk can be gone round any number of times. -/
theorem Graph.Walk.replicate {g : Graph} {u : StateId} {w : Int} (h : g.Walk u u w) (n : Nat) :
    g.Walk u u (n * w) := by
  induction n with
  | zero =>
    rw [Nat.cast_zero, zero_mul]
    exact .refl u
  | succ n ih =>
    rw [Nat.cast_succ, add_one_mul]
    exact ih.append h

namespace Graph.Exact

variable {g : Graph}

/-- The walks of the graph from the start state are the walks along derivable transitions. -/
theorem walk_iff (hg : g.Exact code vectors start) (s : State) (w : Int) :
    (∃ id, g.Walk g.eden id w ∧ g.state id = s) ↔ StackDepth.Walk code vectors start start s w := by
  have hwf := hg.consistent.wellFormed
  obtain ⟨heden, hstart⟩ := hg.consistent.eden
  constructor
  · -- the graph's walks grow at the front, so the walk so far is carried along
    have hcons : ∀ {u id : StateId} {w : Int}, g.Walk u id w →
        ∀ x, StackDepth.Walk code vectors start start (g.state u) x →
          StackDepth.Walk code vectors start start (g.state id) (x + w) := by
      intro u id w h
      induction h with
      | refl u =>
        intro x hx
        rwa [add_zero]
      | cons he _ ih =>
        intro x hx
        have hnext := ih _ (hx.tail (hg.consistent.edges _ he).2)
        rwa [add_assoc] at hnext
    rintro ⟨id, hwalk, rfl⟩
    have hfirst : StackDepth.Walk code vectors start start (g.state g.eden) 0 := by
      rw [hstart]
      exact .refl start
    simpa using hcons hwalk 0 hfirst
  · intro h
    induction h with
    | refl => exact ⟨g.eden, .refl _, hstart⟩
    | tail _ he ih =>
      obtain ⟨id, hwalk, rfl⟩ := ih
      obtain ⟨t, ht, rfl⟩ := hg.exists_of_reached (.target he)
      exact ⟨t, hwalk.tail ((hg.mem_edges_iff (hwalk.lt hwf heden) ht _).mpr he), rfl⟩

/-- The nodes are the states of the configurations. -/
theorem node_iff (hg : g.Exact code vectors start) (s : State) :
    (∃ id < g.size, g.state id = s) ↔
      ∃ h fs, Configuration.Reachable code vectors start ⟨s, h, fs⟩ := by
  rw [reachable_state_iff]
  constructor
  · rintro ⟨id, hid, rfl⟩
    exact hg.consistent.reached id hid
  · exact hg.exists_of_reached

/-- The weights of walks from the start state are the heights of the configurations. -/
theorem mem_heights_iff (hg : g.Exact code vectors start) (h : Int) :
    h ∈ Configuration.heights code vectors start ↔ ∃ id, g.Walk g.eden id h := by
  rw [Configuration.heights, Set.mem_ofPred_eq, reachable_height_iff]
  constructor
  · rintro ⟨s, hwalk⟩
    obtain ⟨id, hid, -⟩ := (hg.walk_iff s h).mpr hwalk
    exact ⟨id, hid⟩
  · rintro ⟨id, hwalk⟩
    exact ⟨g.state id, (hg.walk_iff _ h).mp ⟨id, hwalk, rfl⟩⟩

/-- Every node is at the end of a walk from the start state. -/
theorem exists_walk_to (hg : g.Exact code vectors start) {u : StateId} (hu : u < g.size) :
    ∃ w, g.Walk g.eden u w := by
  have hwf := hg.consistent.wellFormed
  obtain ⟨h, fs, hreach⟩ := (hg.node_iff _).mp ⟨u, hu, rfl⟩
  obtain ⟨id, hwalk, hid⟩ := (hg.walk_iff _ h).mpr (reachable_anchored hreach).walk
  obtain rfl := hwf.state_injective (hwalk.lt hwf hg.consistent.eden.1) hu hid
  exact ⟨h, hwalk⟩

/-- A cycle that weighs something gives infinitely many heights. -/
theorem heights_infinite (hg : g.Exact code vectors start) {u : StateId} (hu : u < g.size) {w : Int}
    (hw : w ≠ 0) (hcycle : g.Walk u u w) : (Configuration.heights code vectors start).Infinite := by
  obtain ⟨x, happroach⟩ := hg.exists_walk_to hu
  have hmem : ∀ n : Nat, x + n * w ∈ Configuration.heights code vectors start := by
    intro n
    rw [hg.mem_heights_iff]
    exact ⟨u, happroach.append (hcycle.replicate n)⟩
  have hinjective : Function.Injective fun n : Nat => x + n * w := by
    intro m n hmn
    exact Nat.cast_injective (mul_right_cancel₀ hw (add_left_cancel hmn))
  exact Set.infinite_of_injective_forall_mem hinjective hmem

/-- If every edge raises the level of its source by its weight, then the heights are the levels of the
nodes, counted from the start state. -/
theorem exists_level (hg : g.Exact code vectors start) (level : StateId → Int)
    (hlevel : ∀ a ∈ g.edges, level a.target = level a.source + a.weight) {h : Int}
    (hh : h ∈ Configuration.heights code vectors start) :
    ∃ id < g.size, h = level id - level g.eden := by
  have hwalk : ∀ {u v : StateId} {w : Int}, g.Walk u v w → w = level v - level u := by
    intro u v w hw
    induction hw with
    | refl u => exact (sub_self _).symm
    | cons he _ ih =>
      have hstep := hlevel _ he
      rw [Edge.weight] at hstep
      dsimp only at hstep
      omega
  obtain ⟨id, hid⟩ := (hg.mem_heights_iff h).mp hh
  exact ⟨id, hid.lt hg.consistent.wellFormed hg.consistent.eden.1, hwalk hid⟩

/-- Levels of finitely many nodes bound the heights. -/
theorem heights_finite_of_level (hg : g.Exact code vectors start) (level : StateId → Int)
    (hlevel : ∀ a ∈ g.edges, level a.target = level a.source + a.weight) :
    (Configuration.heights code vectors start).Finite := by
  refine ((Set.finite_Iio g.size).image fun id => level id - level g.eden).subset ?_
  intro h hh
  obtain ⟨id, hid, rfl⟩ := hg.exists_level level hlevel hh
  exact ⟨id, hid, rfl⟩

end Graph.Exact

/-- The report of a complete state space tells whether heights are bounded, and by what. -/
theorem Exploration.fullReport_exact {x : Exploration} (hx : x.graph.Exact code vectors start) :
    ((x.fullReport code).outcome = .bounded ↔ (Configuration.heights code vectors start).Finite) ∧
      ((x.fullReport code).outcome = .bounded →
        IsGreatest (Configuration.heights code vectors start) (x.fullReport code).depth) := by
  have hspec := Graph.maxPath_spec hx.consistent.wellFormed hx.consistent.eden.1
  rw [fullReport]
  dsimp only
  generalize x.graph.maxPath = result at hspec ⊢
  cases result with
  | bounded depth path =>
    obtain ⟨hattained, hupper, least, hlower⟩ := hspec
    have hrange : Configuration.heights code vectors start ⊆ Set.Icc least depth := by
      intro h hh
      obtain ⟨id, hwalk⟩ := (hx.mem_heights_iff h).mp hh
      exact ⟨hlower id h hwalk, hupper id h hwalk⟩
    refine ⟨iff_of_true rfl ((Set.finite_Icc least depth).subset hrange), fun _ => ⟨?_, ?_⟩⟩
    · exact (hx.mem_heights_iff depth).mpr hattained
    · exact fun h hh => (hrange hh).2
  | unbounded approach cycle =>
    obtain ⟨u, hu, w, hw, hcycle⟩ := hspec
    refine ⟨iff_of_false (by simp) (hx.heights_infinite hu hw hcycle), fun hcontra => ?_⟩
    exact absurd hcontra (by simp)

theorem Exploration.fullReport_outcome (x : Exploration) (code : Code) :
    (x.fullReport code).outcome = .bounded ∨ (x.fullReport code).outcome = .unbounded := by
  unfold fullReport
  dsimp only
  split
  · exact .inl rfl
  · exact .inr rfl

/-- A report comes from a complete state space, or from an analysis that was cancelled or ran out of its
budget; then it shows neither a bound nor a cycle. -/
theorem analyze_outcome {limits : Limits} {around : Surroundings} {x : Exploration} {r : Report}
    (h : analyze code limits around start = (x, .ok r)) :
    x.graph.Exact code limits.vectors start ∧ r = x.fullReport code ∨
      ¬ Building.Unlimited limits around ∧ r.outcome ≠ .bounded ∧ r.outcome ≠ .unbounded := by
  unfold analyze at h
  split at h
  · simp at h
  · next b how hbuild =>
    simp only [Exploration.conclude, Prod.mk.injEq, Except.ok.injEq] at h
    have hlimited : how ≠ .complete → ¬ Building.Unlimited limits around :=
      fun hne hu => hne (Building.run_complete hu hbuild)
    cases how with
    | complete =>
      have hexact := (Building.run_invariant hbuild).exact (Building.run_idle hbuild)
      obtain ⟨rfl, rfl⟩ := h
      exact .inl ⟨hexact, rfl⟩
    | stopped =>
      obtain ⟨-, rfl⟩ := h
      exact .inr ⟨hlimited (by simp), by simp [Exploration.partialReport]⟩
    | exhausted =>
      obtain ⟨-, rfl⟩ := h
      exact .inr ⟨hlimited (by simp), by simp [Exploration.partialReport]⟩

/-- An analysis that gives a report ends with the graph of the fixpoint and the report of a complete
state space, unless it was cancelled or a budget ran out. -/
theorem analyze_cases {limits : Limits} {around : Surroundings} {x : Exploration} {r : Report}
    (h : analyze code limits around start = (x, .ok r)) :
    x.graph.Exact code limits.vectors start ∧ r = x.fullReport code ∨
      ¬ Building.Unlimited limits around ∧ r.outcome ≠ .bounded :=
  (analyze_outcome h).imp_right fun hlimited => ⟨hlimited.1, hlimited.2.1⟩

/-- A report with a bound or a cycle comes from a complete state space. -/
theorem analyze_complete {limits : Limits} {around : Surroundings} {x : Exploration} {r : Report}
    (h : analyze code limits around start = (x, .ok r))
    (hr : r.outcome = .bounded ∨ r.outcome = .unbounded) :
    x.graph.Exact code limits.vectors start ∧ r = x.fullReport code :=
  (analyze_outcome h).resolve_right fun hlimited => hr.elim hlimited.2.1 hlimited.2.2

/-- Where building is complete, the analysis gives the report of the complete state space. -/
theorem analyze_of_complete {limits : Limits} {around : Surroundings}
    (hend : (Building.run code limits around start).2 = .ok .complete) :
    (Building.run code limits around start).1.work.graph.Exact code limits.vectors start ∧
      analyze code limits around start =
        (((Building.run code limits around start).1.work.conclude code .complete).1,
          .ok ((Building.run code limits around start).1.work.conclude code .complete).2) := by
  rw [analyze]
  generalize hrun : Building.run code limits around start = p at hend ⊢
  obtain ⟨b, result⟩ := p
  obtain rfl : result = .ok .complete := hend
  exact ⟨(Building.run_invariant hrun).exact (Building.run_idle hrun), rfl⟩

/-- The analysis is exact for call strings: without cancellation and budgets, an analysis that gives a
report has interned exactly the states of the reachable configurations, reports a bound exactly if their
heights are finitely many, and the bound is the greatest of them. -/
theorem analyze_exact {limits : Limits} {around : Surroundings}
    (hu : Building.Unlimited limits around) {x : Exploration} {r : Report}
    (hrun : analyze code limits around start = (x, .ok r)) :
    (∀ s, (∃ h fs, Configuration.Reachable code limits.vectors start ⟨s, h, fs⟩) ↔
      ∃ id < x.graph.size, x.graph.state id = s) ∧
    (r.outcome = .bounded ↔ (Configuration.heights code limits.vectors start).Finite) ∧
    (r.outcome = .bounded →
      IsGreatest (Configuration.heights code limits.vectors start) r.depth) := by
  obtain ⟨hexact, rfl⟩ | ⟨hlimited, -⟩ := analyze_cases hrun
  · obtain ⟨hfinite, hgreatest⟩ := Exploration.fullReport_exact hexact
    exact ⟨fun s => (hexact.node_iff s).symm, hfinite, hgreatest⟩
  · exact absurd hu hlimited

/-- A complete state space whose edges raise the levels of its nodes by their weights gives a bound, which
is the level of some node. -/
theorem analyze_of_level {limits : Limits} {around : Surroundings}
    (hend : (Building.run code limits around start).2 = .ok .complete) (level : StateId → Int)
    (hlevel : ∀ a ∈ (Building.run code limits around start).1.work.graph.edges,
      level a.target = level a.source + a.weight) :
    ∃ x r, analyze code limits around start = (x, .ok r) ∧ r.outcome = .bounded ∧
      ∃ id < x.graph.size, r.depth = level id - level x.graph.eden := by
  obtain ⟨hexact, hanalyze⟩ := analyze_of_complete hend
  obtain ⟨hfinite, hgreatest⟩ := Exploration.fullReport_exact hexact
  have hbounded := hfinite.mpr (hexact.heights_finite_of_level level hlevel)
  exact ⟨_, _, hanalyze, hbounded, hexact.exists_level level hlevel (hgreatest hbounded).1⟩

/-- The analysis of a call that returns at once finds the greatest height of its configurations. -/
theorem analyze_exact_of_call :
    ∃ x r, analyze callAndReturn.code {} {} .reset = (x, .ok r) ∧
      (∀ s, (∃ h fs, Configuration.Reachable callAndReturn.code 4 .reset ⟨s, h, fs⟩) ↔
        ∃ id < x.graph.size, x.graph.state id = s) ∧
      r.outcome = .bounded ∧
      IsGreatest (Configuration.heights callAndReturn.code 4 .reset) r.depth := by
  have hend : (Building.run callAndReturn.code {} {} .reset).2 = .ok .complete := by decide +kernel
  have hlevel : ∀ a ∈ (Building.run callAndReturn.code {} {} .reset).1.work.graph.edges,
      [0, 2, 0].getD a.target 0 = [0, 2, 0].getD a.source 0 + a.weight := by decide +kernel
  obtain ⟨x, r, hrun, hbounded, -⟩ :=
    analyze_of_level hend (fun id => [0, 2, 0].getD id 0) hlevel
  obtain ⟨hstates, -, hgreatest⟩ := analyze_exact ⟨fun _ => rfl, le_rfl, rfl⟩ hrun
  exact ⟨x, r, hrun, hstates, hbounded, hgreatest hbounded⟩

end StackDepth
