import Mathlib
import StackDepth.Analysis.Report
import StackDepth.Proofs.Analysis.Fixpoint
import StackDepth.Proofs.Analysis.Turn

/-!
# Budgets and cancellation only truncate

The checks for cancellation and budgets stand between the turns of the loop and look at the exploration
without changing it. So a run with checks takes the same turns as the run without them, until a check ends
it. From then on the run without checks only adds: states and edges keep their numbers, and a state that is
explored keeps its kind.

* `Graph.Precedes`: a graph that is the beginning of another one;
* `Exploration.Balanced.precedes_turn`: a turn only adds;
* `Building.Truncates`: how a run with checks compares with one without;
* `analyze_truncates`: what this means for the report.
-/

namespace StackDepth

/-! ### Beginnings of a graph -/

/-- States and edges keep their numbers, and an explored state stays explored and keeps its kind. -/
structure Graph.Precedes (g g' : Graph) : Prop where
  /-- States and edges are only added. -/
  grows : g.Grows g'
  /-- An explored state stays explored and keeps its kind. -/
  kept : ∀ id, (g.node id).explored = true →
    (g'.node id).explored = true ∧ (g'.node id).kind = (g.node id).kind

namespace Graph

variable {f g h : Graph}

theorem Precedes.refl (g : Graph) : g.Precedes g := ⟨.refl g, fun _ hid => ⟨hid, rfl⟩⟩

theorem Precedes.trans (hfg : f.Precedes g) (hgh : g.Precedes h) : f.Precedes h where
  grows := hfg.grows.trans hgh.grows
  kept id hid := by
    obtain ⟨hexplored, hkind⟩ := hfg.kept id hid
    obtain ⟨hexplored', hkind'⟩ := hgh.kept id hexplored
    exact ⟨hexplored', hkind'.trans hkind⟩

/-- Interned states keep their places in the list. -/
theorem Grows.states_prefix (h : g.Grows f) : g.cache.states.toList <+: f.cache.states.toList := by
  refine List.prefix_iff_getElem?.mpr fun id hid => ?_
  have hlt : id < g.size := hid
  have hstate := WellFormed.state?_of_lt (hlt.trans_le h.size_le)
  rw [h.state_eq id hlt] at hstate
  rw [Array.getElem?_toList]
  refine hstate.trans (Eq.trans (WellFormed.state?_of_lt hlt).symm ?_)
  exact Array.getElem?_eq_getElem hlt

/-- Edges keep their places in the list. -/
theorem Grows.edges_prefix (h : g.Grows f) : g.edges.toList <+: f.edges.toList := by
  refine List.prefix_iff_getElem?.mpr fun e he => ?_
  rw [Array.getElem?_toList, Array.getElem_toList]
  exact h.edge_eq e _ (Array.getElem?_eq_getElem he)

/-- A change that keeps all states, edges and marks makes neither graph longer. -/
theorem SameShape.precedes (h : g.SameShape f)
    (hmarks : ∀ id, (f.node id).explored = (g.node id).explored ∧ (f.node id).kind = (g.node id).kind) :
    g.Precedes f ∧ f.Precedes g :=
  ⟨⟨h.grows, fun id hid => ⟨(hmarks id).1.trans hid, (hmarks id).2⟩⟩,
    ⟨h.symm.grows, fun id hid => ⟨(hmarks id).1.symm.trans hid, (hmarks id).2.symm⟩⟩⟩

end Graph

namespace Exploration

variable {code : Code} {vectors : Int}

theorem Continues.precedes {x y : Exploration} (h : Continues x y) : x.graph.Precedes y.graph :=
  ⟨h.grows, fun id hid => ⟨(h.explored_eq id).trans hid, h.kind_eq id⟩⟩

/-- Only the state that is explored gets another kind, and it was not explored before. -/
theorem Balanced.precedes_explore {x : Exploration} (hx : x.Balanced) {id : StateId}
    {rest : List StateId} (hfront : x.graph.frontier = id :: rest) {y : Exploration}
    {error : Option RunError}
    (h : ({ x with graph := x.graph.dropFrontier id } : Exploration).explore code vectors id =
      (y, error)) : x.graph.Precedes y.graph := by
  obtain ⟨z, hz, hy⟩ := hx.explore code vectors hfront h
  have hwait := hx.frontier.waiting id (hfront ▸ List.mem_cons_self)
  have hbegin : x.graph.Precedes (x.graph.begin id) :=
    ⟨(x.graph.sameShape_begin id).grows, fun j hj =>
      ⟨Graph.explored_begin (hx.wellFormed.nodes_size ▸ hwait.1) hwait.2 hj, x.graph.kind_begin id j⟩⟩
  have hall := hbegin.trans hz.precedes
  rcases hy with rfl | ⟨k, -, rfl⟩
  · exact hall
  · refine ⟨hall.grows.trans (z.graph.sameShape_setKind id k).grows, fun j hj => ?_⟩
    have hne : j ≠ id := by
      rintro rfl
      rw [hwait.2] at hj
      exact Bool.false_ne_true hj
    have hlt : id < z.graph.nodes.size := by
      rw [hz.balanced.wellFormed.nodes_size]
      exact hwait.1.trans_le hall.grows.size_le
    obtain ⟨hexplored, hkind⟩ := hall.kept j hj
    rw [explored_markReturn]
    refine ⟨hexplored, ?_⟩
    rw [Exploration.markReturn, Graph.node_setKind hlt, if_neg hne]
    exact hkind

theorem Balanced.precedes_propagateNext {x : Exploration} (hx : x.Balanced)
    (hfront : x.graph.frontier = []) : x.graph.Precedes (x.propagateNext code).1.graph := by
  obtain ⟨x₁, hcont, hgraph, -⟩ := hx.continues_propagateNext code hfront
  exact hgraph ▸ hcont.precedes

theorem Balanced.precedes_turn {x : Exploration} (hx : x.Balanced) :
    x.graph.Precedes (x.turn code vectors).1.graph := by
  unfold turn
  split
  · next id rest hfront => exact hx.precedes_explore hfront rfl
  · next hfront =>
    split
    · exact .refl _
    · exact hx.precedes_propagateNext hfront

end Exploration

/-! ### Two runs side by side -/

namespace Building

open Exploration

variable {code : Code} {limits limits' : Limits} {around around' : Surroundings}

/-- Without limits, a step is its turn. -/
theorem step_of_unlimited (hu : Unlimited limits around) {b b' : Building} {v : Verdict}
    (h : b.step code limits around = (b', v)) : (b'.work, v) = b.work.turn code limits.vectors :=
  (step_cases h).resolve_right fun hcontra => hcontra.1 hu

theorem step_precedes {b b' : Building} {v : Verdict} (hb : b.work.Balanced)
    (h : b.step code limits around = (b', v)) : b.work.graph.Precedes b'.work.graph := by
  have hturn : b.work.graph.Precedes (b.work.turn code limits.vectors).1.graph := hb.precedes_turn
  rcases step_cases h with heq | ⟨-, e, ⟨-, -, heq⟩ | ⟨-, heq⟩⟩
  · rwa [← heq] at hturn
  · rwa [heq]
  · rw [heq]
    exact .refl _

/-- The graph at any point of a run is the beginning of the graph at its end. -/
theorem loop_precedes {fuel : Nat} {b : Building} (hb : b.work.Balanced) :
    b.work.graph.Precedes (loop code limits around fuel b).1.work.graph := by
  induction fuel generalizing b with
  | zero => exact .refl _
  | succ fuel ih =>
    rw [loop]
    generalize hstep : b.step code limits around = p
    obtain ⟨b₁, v⟩ := p
    have hfirst := step_precedes hb hstep
    cases v with
    | goOn => exact hfirst.trans (ih (step_balanced hb hstep))
    | ended how => exact hfirst
    | failed error => exact hfirst

/-- A run with checks is cut off at some point of the run without checks: it has a beginning of the graph,
it is complete only if it is the whole run, and it fails only where the whole run does. -/
structure Truncates (cut full : Building × Except RunError Ending) : Prop where
  /-- The graph of the cut run is a beginning of the other one. -/
  precedes : cut.1.work.graph.Precedes full.1.work.graph
  /-- A cut run that is complete is the whole run. -/
  complete : cut.2 = .ok .complete → full.2 = .ok .complete ∧ cut.1.work = full.1.work
  /-- A cut run that fails, fails as the whole run does. -/
  error : ∀ e, cut.2 = .error e → full.2 = .error e

/-- A run that a check ends is the beginning of every run that goes on from there. -/
theorem truncates_of_ended {b : Building} {full : Building × Except RunError Ending} {v : Verdict}
    (hv : v = .ended .stopped ∨ v = .ended .exhausted) (h : b.work.graph.Precedes full.1.work.graph) :
    ∃ how, v = .ended how ∧ Truncates (b, .ok how) full := by
  rcases hv with rfl | rfl
  · exact ⟨.stopped, rfl, h, by simp, by simp⟩
  · exact ⟨.exhausted, rfl, h, by simp, by simp⟩

theorem loop_truncates (hu : Unlimited limits around) (hv : limits'.vectors = limits.vectors)
    {fuel : Nat} {b b' : Building} (hwork : b'.work = b.work) (hb : b.work.Balanced) :
    Truncates (loop code limits' around' fuel b') (loop code limits around fuel b) := by
  induction fuel generalizing b b' with
  | zero => exact ⟨hwork ▸ .refl _, by simp [loop], by simp [loop]⟩
  | succ fuel ih =>
    have hrest : b.work.graph.Precedes (loop code limits around (fuel + 1) b).1.work.graph :=
      loop_precedes hb
    rw [loop] at hrest ⊢
    rw [loop]
    generalize hstep : b.step code limits around = p at hrest ⊢
    generalize hstep' : b'.step code limits' around' = p'
    obtain ⟨b₁, v⟩ := p
    obtain ⟨b₁', v'⟩ := p'
    have hturn := step_of_unlimited hu hstep
    have hbalanced := step_balanced hb hstep
    have hcases := step_cases hstep'
    rw [hv, hwork, ← hturn] at hcases
    rcases hcases with heq | ⟨-, e, ⟨hended, hgoOn, heq⟩ | ⟨hstopped, heq⟩⟩
    · -- the same turn on both sides
      obtain ⟨hwork₁, rfl⟩ := Prod.mk.inj heq
      cases v' with
      | goOn => exact ih hwork₁ hbalanced
      | ended how => exact ⟨hwork₁ ▸ .refl _, fun hhow => ⟨hhow, hwork₁⟩, by simp⟩
      | failed error => exact ⟨hwork₁ ▸ .refl _, by simp, fun _ herror => herror⟩
    · -- cut off behind the turn
      obtain rfl : v = .goOn := hgoOn
      have hcut : b₁'.work.graph.Precedes (loop code limits around fuel b₁).1.work.graph := by
        rw [heq]
        exact loop_precedes hbalanced
      obtain ⟨how, rfl, htruncates⟩ := truncates_of_ended hended hcut
      exact htruncates
    · -- cut off before the turn
      have hcut : b₁'.work.graph = b.work.graph := by rw [heq]; rfl
      rw [← hcut] at hrest
      obtain ⟨how, rfl, htruncates⟩ := truncates_of_ended (.inl hstopped) hrest
      exact htruncates

theorem run_truncates (hu : Unlimited limits around) (hv : limits'.vectors = limits.vectors)
    (code : Code) (start : State) :
    Truncates (run code limits' around' start) (run code limits around start) := by
  have hstart := balanced_start start
  rw [run, run]
  generalize stepBound = fuel
  simp only [poll, hu.uncancelled]
  cases around'.isCancelled 0 with
  | true => exact ⟨loop_precedes hstart, by simp, by simp⟩
  | false => exact loop_truncates hu hv rfl hstart

end Building

/-! ### Reports -/

/-- Only a complete state space gives a bound or a cycle. -/
theorem Exploration.complete_of_outcome {x : Exploration} {code : Code} {how : Ending}
    (h : (x.conclude code how).2.outcome = .bounded ∨ (x.conclude code how).2.outcome = .unbounded) :
    how = .complete := by
  cases how with
  | complete => rfl
  | stopped => simp [conclude, partialReport] at h
  | exhausted => simp [conclude, partialReport] at h

/-- The graph of an analysis is the one that was built, possibly without its return sets. -/
theorem graph_analyze (code : Code) (limits : Limits) (around : Surroundings) (start : State) :
    (analyze code limits around start).1.graph =
        (Building.run code limits around start).1.work.graph ∨
      (analyze code limits around start).1.graph =
        (Building.run code limits around start).1.work.graph.deleteReturns := by
  unfold analyze
  split
  · next heq =>
    rw [heq]
    exact .inl rfl
  · next b how heq =>
    rw [heq]
    cases how with
    | complete => exact .inl rfl
    | stopped => exact .inl rfl
    | exhausted => exact .inr rfl

theorem precedes_analyze (code : Code) (limits : Limits) (around : Surroundings) (start : State) :
    let built := (Building.run code limits around start).1.work.graph
    let final := (analyze code limits around start).1.graph
    built.Precedes final ∧ final.Precedes built := by
  dsimp only
  rcases graph_analyze code limits around start with heq | heq
  · rw [heq]
    exact ⟨.refl _, .refl _⟩
  · rw [heq]
    refine (Graph.sameShape_deleteReturns _).precedes fun id => ?_
    rw [Graph.node_deleteReturns]
    exact ⟨rfl, rfl⟩

/-- Limits and cancellation only truncate an analysis. Its states and edges are the first ones of the
analysis without limits, under the same numbers, and an explored state has the same kind in both. A bound
or a cycle that it finds is the result of the analysis without limits, and so is an error. -/
theorem analyze_truncates {limits limits' : Limits} {around : Surroundings}
    (hu : Building.Unlimited limits around) (hv : limits'.vectors = limits.vectors)
    (around' : Surroundings) (code : Code) (start : State) :
    let full := analyze code limits around start
    let cut := analyze code limits' around' start
    cut.1.graph.cache.states.toList <+: full.1.graph.cache.states.toList ∧
    cut.1.graph.edges.toList <+: full.1.graph.edges.toList ∧
    (∀ id, (cut.1.graph.node id).explored = true →
      (full.1.graph.node id).kind = (cut.1.graph.node id).kind) ∧
    (∀ r, cut.2 = .ok r → r.outcome = .bounded ∨ r.outcome = .unbounded → cut = full) ∧
    ∀ error, cut.2 = .error error → full.2 = .error error := by
  dsimp only
  have htruncates : Building.Truncates (Building.run code limits' around' start)
      (Building.run code limits around start) := Building.run_truncates hu hv code start
  have hprecedes : (analyze code limits' around' start).1.graph.Precedes
      (analyze code limits around start).1.graph :=
    ((precedes_analyze code limits' around' start).2.trans htruncates.precedes).trans
      (precedes_analyze code limits around start).1
  refine ⟨hprecedes.grows.states_prefix, hprecedes.grows.edges_prefix,
    fun id hid => (hprecedes.kept id hid).2, ?_⟩
  rw [analyze, analyze]
  generalize Building.run code limits' around' start = cut at htruncates
  generalize Building.run code limits around start = full at htruncates
  obtain ⟨b', result'⟩ := cut
  obtain ⟨b, result⟩ := full
  cases result' with
  | error error =>
    obtain rfl : result = .error error := htruncates.error error rfl
    exact ⟨by simp, fun _ herror => herror⟩
  | ok how =>
    refine ⟨fun r hr houtcome => ?_, by simp⟩
    obtain rfl : (b'.work.conclude code how).2 = r := Except.ok.inj hr
    obtain rfl := Exploration.complete_of_outcome houtcome
    obtain ⟨rfl, hwork⟩ := htruncates.complete rfl
    dsimp only at hwork ⊢
    rw [hwork]

/-- The analysis of a call that is cancelled before the return is propagated has the first edge of the whole
analysis, and the callee ends in a return in both. -/
theorem analyze_truncates_of_cancelled :
    let full := analyze callAndReturn.code {} {} .reset
    let cut := analyze callAndReturn.code {} { isCancelled := fun n => n == 1 } .reset
    cut.1.graph.edges.toList = [⟨0, 1, .call⟩] ∧ [⟨0, 1, .call⟩] <+: full.1.graph.edges.toList ∧
      (full.1.graph.node 1).kind = .ret := by
  dsimp only
  have hcut : (analyze callAndReturn.code {} { isCancelled := fun n => n == 1 } .reset).1.graph.edges =
        #[⟨0, 1, .call⟩] ∧
      ((analyze callAndReturn.code {} { isCancelled := fun n => n == 1 } .reset).1.graph.node 1).explored ∧
      ((analyze callAndReturn.code {} { isCancelled := fun n => n == 1 } .reset).1.graph.node 1).kind =
        .ret := by
    decide +kernel
  have hunlimited : Building.Unlimited {} {} := ⟨fun _ => rfl, le_rfl, rfl⟩
  obtain ⟨-, hedges, hkind, -⟩ :=
    analyze_truncates hunlimited rfl { isCancelled := fun n => n == 1 } callAndReturn.code .reset
  rw [hcut.1] at hedges
  exact ⟨congrArg Array.toList hcut.1, hedges, (hkind 1 hcut.2.1).trans hcut.2.2⟩

end StackDepth
