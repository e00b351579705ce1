import Mathlib
import StackDepth.Analysis.Report
import StackDepth.Proofs.Analysis.Failure
import StackDepth.Proofs.Analysis.Turn
import StackDepth.Proofs.Report.Distribution

/-!
# The numbers of a report

The statistics are read off the counters, so they describe the exploration as long as its books are
balanced, and they are so at the beginning of every turn and however the analysis ends. The distributions
of an unfinished analysis have one sample for every state.

* `Stats.Describes`: what the statistics say about an exploration;
* `Report.Accounts`: what the numbers of a report say;
* `analyze_bookkeeping`: both hold throughout.
-/

namespace StackDepth

variable {code : Code} {limits : Limits} {around : Surroundings} {start : State}

/-- The statistics are the numbers of states, edges and entries of an exploration. -/
structure Stats.Describes (s : Stats) (x : Exploration) : Prop where
  /-- The states that were interned. -/
  states : s.states = x.graph.size
  /-- A state waits on the frontier or it is explored. -/
  states_split : s.states = s.frontier + s.explored
  /-- The states on the frontier. -/
  frontier : s.frontier = x.graph.frontier.length
  /-- The states that are explored. -/
  explored : s.explored = x.graph.tally (fun n => n.explored = true)
  /-- The edges of the graph. -/
  edges : s.edges = x.graph.edges.size
  /-- The return states that wait. -/
  pendingReturns : s.pendingReturns = x.newReturns.length
  /-- The edges that wait. -/
  pendingEdges : s.pendingEdges = x.newEdges.length
  /-- The states that end a call. -/
  returns : s.returns = x.graph.tally (fun n => n.kind = .ret)
  /-- The states that end an interrupt. -/
  returnInterrupts : s.returnInterrupts = x.graph.tally (fun n => n.kind = .reti)

theorem Exploration.Balanced.describes {x : Exploration} (hx : x.Balanced) : x.stats.Describes x where
  states := congrArg Nat.cast hx.counted.states
  states_split := by
    have hsplit := hx.counted.size_eq hx.frontier hx.covered
    rw [← hx.counted.states] at hsplit
    exact (congrArg Nat.cast hsplit).trans (Nat.cast_add _ _)
  frontier := congrArg Nat.cast hx.counted.waiting
  explored := congrArg Nat.cast hx.counted.explored
  edges := congrArg Nat.cast hx.counted.edges
  pendingReturns := congrArg Nat.cast hx.pendingReturns
  pendingEdges := congrArg Nat.cast hx.pendingEdges
  returns := congrArg Nat.cast hx.retCount
  returnInterrupts := congrArg Nat.cast hx.retiCount

/-- The numbers of a report, for the exploration at the end. A distribution holds words of 64 bits, in
which its counts wrap around. -/
structure Report.Accounts (r : Report) (x : Exploration) : Prop where
  /-- The statistics are those of the exploration. -/
  describes : r.stats.Describes x
  /-- A complete state space leaves nothing waiting. -/
  idle : r.outcome = .bounded ∨ r.outcome = .unbounded →
    r.stats.frontier = 0 ∧ r.stats.pendingReturns = 0 ∧ r.stats.pendingEdges = 0
  /-- The distributions of an unfinished state space have one sample for every state. -/
  distributions : r.outcome = .stopped ∨ r.outcome = .exhausted →
    ∃ sizes perPc, r.returnSetSizes = some sizes ∧ r.statesPerPc = some perPc ∧
      sizes.count = wrap64 r.stats.states ∧ perPc.count = wrap64 r.stats.states ∧
      (r.stats.states < 2 ^ 63 → sizes.count = r.stats.states ∧ perPc.count = r.stats.states) ∧
      ∀ pc : Address, perPc.countOf pc.toNat =
        wrap64 ((Finset.range x.graph.size).filter fun id => x.graph.pc id = pc).card

theorem Report.Accounts.note {r : Report} {x : Exploration} (h : r.Accounts x) (e : Event) :
    r.Accounts (x.note e) := by
  obtain ⟨hd, hidle, hdistributions⟩ := h
  exact ⟨⟨hd.states, hd.states_split, hd.frontier, hd.explored, hd.edges, hd.pendingReturns,
    hd.pendingEdges, hd.returns, hd.returnInterrupts⟩, hidle, hdistributions⟩

namespace Exploration

/-! ### The end of an analysis -/

/-- Dropping the return sets changes nothing that is counted. -/
theorem Balanced.deleteReturns {x : Exploration} (hx : x.Balanced) :
    ({ x with graph := x.graph.deleteReturns } : Exploration).Balanced := by
  refine hx.withGraph x.graph.sameShape_deleteReturns ?_ rfl fun id => ?_
  · exact hx.counted.congr rfl rfl rfl rfl (fun id => by rw [Graph.node_deleteReturns]) rfl rfl rfl
  · rw [Graph.node_deleteReturns]
    exact ⟨rfl, rfl, rfl⟩

/-- The samples of a function of the states that have a value. -/
theorem count_samples (n : Nat) (f : StateId → Address) (a : Address) :
    ((List.range n).map fun id => ((f id).toNat : Int)).count (a.toNat : Int) =
      ((Finset.range n).filter fun id => f id = a).card := by
  have hcard : ((Finset.range n).filter fun id => f id = a).card =
      (List.range n).countP fun id => decide (f id = a) := by
    rw [List.countP_eq_length_filter]
    rfl
  rw [hcard, List.count, List.countP_map]
  refine List.countP_congr fun id _ => ?_
  simp only [Function.comp_apply, beq_iff_eq, decide_eq_true_eq, Nat.cast_inj, BitVec.toNat_inj]

/-- The numbers of an unfinished analysis; `y` is what is left of the exploration afterwards. -/
theorem Balanced.accounts_partialReport {x y : Exploration} (hx : x.Balanced) (hy : y.Balanced)
    (hstats : y.stats = x.stats) (hcache : y.graph.cache = x.graph.cache) {outcome : Outcome}
    (houtcome : outcome = .stopped ∨ outcome = .exhausted) :
    (x.partialReport outcome).Accounts y := by
  have hsizes := Distribution.tallies_ofSamples "return set size"
    ((List.range x.graph.size).map fun id => ((x.graph.node id).returns.size : Int))
  have hperPc := Distribution.tallies_ofSamples "states per pc"
    ((List.range x.graph.size).map fun id => ((x.graph.pc id).toNat : Int))
  have hstates : (x.partialReport outcome).stats.states = x.graph.size := hx.describes.states
  have hpc : ∀ id, y.graph.pc id = x.graph.pc id := fun id => by
    rw [Graph.pc, Graph.pc, Graph.state, Graph.state, hcache]
  have hsize : y.graph.size = x.graph.size := by rw [Graph.size, Graph.size, hcache]
  have hdescribes : (x.partialReport outcome).stats.Describes y := by
    have hsame : (x.partialReport outcome).stats = y.stats := hstats.symm
    rw [hsame]
    exact hy.describes
  refine ⟨hdescribes, fun hcontra => ?_, fun _ => ⟨_, _, rfl, rfl, ?_, ?_, ?_, ?_⟩⟩
  · rcases houtcome with rfl | rfl <;> simp [partialReport] at hcontra
  · rw [hstates, hsizes.count, List.length_map, List.length_range]
  · rw [hstates, hperPc.count, List.length_map, List.length_range]
  · intro hlt
    rw [hstates] at hlt ⊢
    have hfits : x.graph.size < 2 ^ 63 := by exact_mod_cast hlt
    rw [hsizes.count, hperPc.count, List.length_map, List.length_range, List.length_map,
      List.length_range, wrap64_natCast hfits]
    exact ⟨rfl, rfl⟩
  · intro pc
    rw [hperPc.countOf, count_samples, hsize]
    simp only [hpc]

/-- The numbers of a complete analysis. -/
theorem Balanced.accounts_fullReport {x : Exploration} (hx : x.Balanced) (code : Code)
    (hidle : x.Idle) : (x.fullReport code).Accounts x := by
  have hd := hx.describes
  have hzero : x.stats.frontier = 0 ∧ x.stats.pendingReturns = 0 ∧ x.stats.pendingEdges = 0 := by
    rw [hd.frontier, hd.pendingReturns, hd.pendingEdges, hidle.1, hidle.2.1, hidle.2.2]
    exact ⟨rfl, rfl, rfl⟩
  unfold fullReport
  dsimp only
  split
  · exact ⟨⟨hd.states, hd.states_split, hd.frontier, hd.explored, hd.edges, hd.pendingReturns,
      hd.pendingEdges, hd.returns, hd.returnInterrupts⟩, fun _ => hzero, by simp⟩
  · exact ⟨⟨hd.states, hd.states_split, hd.frontier, hd.explored, hd.edges, hd.pendingReturns,
      hd.pendingEdges, hd.returns, hd.returnInterrupts⟩, fun _ => hzero, by simp⟩

/-- However building ends, the report accounts for the exploration that is left. -/
theorem Balanced.conclude {x : Exploration} (hx : x.Balanced) (code : Code) (how : Ending)
    (hidle : how = .complete → x.Idle) :
    (x.conclude code how).1.Balanced ∧ (x.conclude code how).2.Accounts (x.conclude code how).1 := by
  have hbuilt := hx.note (.built x.graph.size x.graph.edges.size)
  cases how with
  | complete =>
    have haccounts := hbuilt.accounts_fullReport code (hidle rfl)
    exact ⟨hbuilt.note _, haccounts.note _⟩
  | stopped => exact ⟨hbuilt, hbuilt.accounts_partialReport hbuilt rfl rfl (.inl rfl)⟩
  | exhausted =>
    exact ⟨hbuilt.deleteReturns,
      hbuilt.accounts_partialReport hbuilt.deleteReturns rfl rfl (.inr rfl)⟩

end Exploration

/-- The books are balanced at the beginning of every turn and when the analysis ends, in whatever way;
the statistics describe the exploration, no state is explored while it waits, and the report accounts for
what there is. -/
theorem analyze_bookkeeping (code : Code) (limits : Limits) (around : Surroundings) (start : State) :
    (∀ b, Building.Boundary code limits around start b →
      b.work.Balanced ∧ b.work.stats.Describes b.work) ∧
    (analyze code limits around start).1.Balanced ∧
    (analyze code limits around start).1.stats.Describes (analyze code limits around start).1 ∧
    (∀ error cause, (analyze code limits around start).2 = .error error → error ≠ .frontier cause) ∧
    ∀ r, (analyze code limits around start).2 = .ok r →
      r.Accounts (analyze code limits around start).1 := by
  refine ⟨fun b hb => ⟨hb.balanced, hb.balanced.describes⟩, ?_⟩
  have hrun : (Building.run code limits around start).1.work.Balanced :=
    Building.run_balanced start
  unfold analyze
  split
  · next b error hbuild =>
    rw [hbuild] at hrun
    refine ⟨hrun, hrun.describes, fun error' cause heq => ?_, by simp⟩
    rw [← Except.error.inj heq]
    exact (Building.run_failure hbuild).ne_frontier cause
  · next b how hbuild =>
    rw [hbuild] at hrun
    obtain ⟨hbalanced, haccounts⟩ := hrun.conclude code how
      fun heq => Building.run_idle (heq ▸ hbuild)
    exact ⟨hbalanced, hbalanced.describes, by simp, fun r heq => Except.ok.inj heq ▸ haccounts⟩

/-- The analysis of a call that is cancelled before its return is propagated has interned the caller and
the callee, and one return state waits. -/
theorem analyze_bookkeeping_of_cancelled :
    ∃ r, (analyze callAndReturn.code {} { isCancelled := fun n => n == 1 } .reset).2 = .ok r ∧
      r.outcome = .stopped ∧ r.stats.states = 2 ∧ r.stats.pendingReturns = 1 ∧
      r.stats.frontier + r.stats.explored = 2 ∧
      ∃ sizes perPc, r.returnSetSizes = some sizes ∧ r.statesPerPc = some perPc ∧
        sizes.count = 2 ∧ perPc.count = 2 := by
  have hreport : ((analyze callAndReturn.code {} { isCancelled := fun n => n == 1 } .reset).2.toOption.map
      fun r => (r.outcome, r.stats.states, r.stats.pendingReturns)) = some (.stopped, 2, 1) := by
    decide +kernel
  have haccounts :=
    (analyze_bookkeeping callAndReturn.code {} { isCancelled := fun n => n == 1 } .reset).2.2.2.2
  generalize analyze callAndReturn.code {} { isCancelled := fun n => n == 1 } .reset = p
    at hreport haccounts ⊢
  obtain ⟨x, result⟩ := p
  cases result with
  | error error => simp [Except.toOption] at hreport
  | ok r =>
    simp only [Except.toOption, Option.map_some, Option.some.injEq, Prod.mk.injEq] at hreport
    obtain ⟨houtcome, hstates, hpending⟩ := hreport
    obtain ⟨hdescribes, -, hdistributions⟩ := haccounts r rfl
    obtain ⟨sizes, perPc, hsizes, hperPc, -, -, hcounts, -⟩ := hdistributions (.inl houtcome)
    rw [hstates] at hcounts
    refine ⟨r, rfl, houtcome, hstates, hpending, ?_, sizes, perPc, hsizes, hperPc, hcounts (by decide)⟩
    rw [← hdescribes.states_split, hstates]

end StackDepth
