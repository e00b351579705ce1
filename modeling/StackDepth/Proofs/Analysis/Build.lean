import Mathlib
import StackDepth.Analysis.Build
import StackDepth.Proofs.Analysis.Propagation

/-!
# Building reaches the fixpoint

A step of building is a turn with checks around it. Every turn keeps the exploration valid and complete,
whatever the order in which states, return states and edges are served. A turn explores a state or takes
an entry from a queue, and an entry is queued at most once for every state and edge; so the fuel of building
suffices. When nothing waits, the graph records exactly the derivable facts.

Main statements:

* `Exploration.turn`: a turn of the loop without the checks around it;
* `Building.step_cases`: a step is its turn, or a check ends the run before or behind the turn;
* `Building.step_spec`: what one step keeps, and how it advances;
* `Building.run_ends`, `Building.run_keeps`: what a run keeps, told by what its steps keep;
* `Building.run_invariant`: only derivable facts are recorded, and all of them up to what waits;
* `Building.run_complete`: without cancellation and budgets, building that does not fail is complete;
* `Building.run_idle`: building is complete only when nothing waits.
-/

namespace StackDepth

variable {code : Code} {vectors : Int} {start : State}

namespace Exploration

/-- Only derivable facts are recorded, and all rules have been applied up to what waits. -/
structure Invariant (code : Code) (vectors : Int) (start : State) (x : Exploration) : Prop where
  /-- Only derivable facts are recorded. -/
  valid : x.Valid code vectors start
  /-- All rules have been applied. -/
  complete : x.Complete code vectors {}

theorem Invariant.note {x : Exploration} (h : x.Invariant code vectors start) (e : Event) :
    (x.note e).Invariant code vectors start :=
  ⟨⟨h.valid.consistent, h.valid.covered, h.valid.newEdges_lt, h.valid.newReturns_marked⟩,
    ⟨h.complete.expanded, h.complete.marked, h.complete.handed⟩⟩

theorem Invariant.exact {x : Exploration} (h : x.Invariant code vectors start) (hi : x.Idle) :
    x.graph.Exact code vectors start :=
  hi.exact h.valid h.complete

/-- The exploration of a start state. -/
theorem invariant_start (s : State) : (Exploration.start s).Invariant code vectors s := by
  have hmarks := Graph.marks_start s
  refine ⟨⟨⟨Graph.wellFormed_start s, Graph.frontierInOrder_start s, Graph.eden_start_spec s, ?_, ?_,
    ?_, ?_⟩, Graph.covered_start s, ?_, ?_⟩, ?_, ?_, ?_⟩
  · intro id hid
    change Derivable code vectors s (.reached ((Graph.start s).state id))
    rw [Graph.eq_eden_of_lt_start hid, (Graph.eden_start_spec s).2]
    exact .start
  · intro a ha
    change a ∈ (Graph.start s).edges at ha
    rw [Graph.edges_start] at ha
    exact absurd ha (Array.not_mem_empty a)
  · intro id hid
    exact absurd (hmarks id).1 hid
  · intro n r hr
    change ((Graph.start s).node n).returns.contains r = true at hr
    rw [(hmarks n).2.2, ReturnSet.contains_empty] at hr
    exact absurd hr Bool.false_ne_true
  · exact fun e he => absurd he List.not_mem_nil
  · exact fun r hr => absurd hr List.not_mem_nil
  · intro id hid
    change ((Graph.start s).node id).explored = true at hid
    rw [(hmarks id).2.1] at hid
    exact absurd hid Bool.false_ne_true
  · intro r hr
    exact absurd (hmarks r).1 hr
  · intro e a ha
    change (Graph.start s).edges[e]? = some a at ha
    rw [Graph.edges_start] at ha
    simp at ha

/-! ### Progress -/

/-- The number of explored states below `bound`. -/
def exploredBelow (g : Graph) (bound : Nat) : Nat :=
  ((Finset.range bound).filter fun id => (g.node id).explored = true).card

theorem exploredBelow_le (g : Graph) (bound : Nat) : exploredBelow g bound ≤ bound := by
  calc exploredBelow g bound ≤ (Finset.range bound).card := Finset.card_filter_le _ _
    _ = bound := Finset.card_range bound

/-- A step explores a state, or takes an entry from a queue; a new edge makes up for its entry. -/
def Advances (bound : Nat) (x y : Exploration) : Prop :=
  y.newReturns.length + y.newEdges.length + 2 * exploredBelow x.graph bound + x.graph.edges.size + 1 ≤
    x.newReturns.length + x.newEdges.length + 2 * exploredBelow y.graph bound + y.graph.edges.size

theorem Explores.advances {x y : Exploration} {id : StateId} (h : Explores x y id) {bound : Nat}
    (hid : id < bound) : Advances bound x y := by
  have hset : (Finset.range bound).filter (fun j => (y.graph.node j).explored = true) =
      insert id ((Finset.range bound).filter fun j => (x.graph.node j).explored = true) := by
    ext j
    simp only [Finset.mem_filter, Finset.mem_range, Finset.mem_insert, h.explored_iff]
    constructor
    · rintro ⟨hj, rfl | hexp⟩
      · exact .inl rfl
      · exact .inr ⟨hj, hexp⟩
    · rintro (rfl | ⟨hj, hexp⟩)
      · exact ⟨hid, .inl rfl⟩
      · exact ⟨hj, .inr hexp⟩
  have hcard : exploredBelow y.graph bound = exploredBelow x.graph bound + 1 := by
    rw [exploredBelow, hset, Finset.card_insert_of_notMem]
    · rfl
    · simp [h.fresh]
  have hreturns := h.newReturns_length
  have hcount := h.count_le
  unfold Advances
  omega

theorem Serves.advances {x y : Exploration} (h : Serves x y) (bound : Nat) : Advances bound x y := by
  have hsame : exploredBelow y.graph bound = exploredBelow x.graph bound := by
    simp only [exploredBelow, h.explored_eq]
  have hcount := h.count_lt
  unfold Advances
  omega

/-! ### Turns -/

/-- What follows a part of a turn. -/
def verdictOf : Option RunError → Verdict
  | none => .goOn
  | some error => .failed error

/-- A turn of the loop without the checks around it. -/
def turn (x : Exploration) (code : Code) (vectors : Int) : Exploration × Verdict :=
  match x.graph.frontier with
  | id :: _ =>
      let (y, error) := ({ x with graph := x.graph.dropFrontier id } : Exploration).explore code vectors id
      (y, verdictOf error)
  | [] =>
      if x.newReturns.isEmpty && x.newEdges.isEmpty then (x, .ended .complete)
      else
        let (y, error) := x.propagateNext code
        (y, verdictOf error)

theorem turn_of_cons {x : Exploration} {id : StateId} {rest : List StateId}
    (hfront : x.graph.frontier = id :: rest) : x.turn code vectors =
      ((({ x with graph := x.graph.dropFrontier id } : Exploration).explore code vectors id).1,
        verdictOf
          (({ x with graph := x.graph.dropFrontier id } : Exploration).explore code vectors id).2) := by
  rw [turn, hfront]

theorem turn_of_nil {x : Exploration} (hfront : x.graph.frontier = []) : x.turn code vectors =
    if x.newReturns.isEmpty && x.newEdges.isEmpty then (x, .ended .complete)
    else ((x.propagateNext code).1, verdictOf (x.propagateNext code).2) := by
  rw [turn, hfront]

/-- A turn that does not fail keeps the invariant. It makes progress, or finds that nothing waits. -/
theorem Invariant.turn {x y : Exploration} {v : Verdict} (hx : x.Invariant code vectors start)
    (h : x.turn code vectors = (y, v)) (hv : ∀ e, v ≠ .failed e) :
    y.Invariant code vectors start ∧
      (v = .goOn ∧ (∀ bound, stateBound ≤ bound → Advances bound x y) ∨
        v = .ended .complete ∧ y.Idle) := by
  cases hfront : x.graph.frontier with
  | cons id rest =>
    have hid := (hx.valid.consistent.frontier.waiting id (hfront ▸ List.mem_cons_self)).1
    have hlt : id < stateBound := hid.trans_le hx.valid.consistent.wellFormed.size_le
    rw [turn_of_cons hfront] at h
    generalize hexplore : ({ x with graph := x.graph.dropFrontier id } : Exploration).explore code
      vectors id = p at h
    obtain ⟨z, error⟩ := p
    obtain ⟨rfl, rfl⟩ := Prod.mk.inj h
    cases error with
    | some e => exact absurd rfl (hv e)
    | none =>
      obtain ⟨hvalid, hcomplete, hexplores⟩ := hx.complete.explore hx.valid hfront hexplore
      exact ⟨⟨hvalid, hcomplete⟩,
        .inl ⟨rfl, fun bound hbound => hexplores.advances (hlt.trans_le hbound)⟩⟩
  | nil =>
    rw [turn_of_nil hfront] at h
    split at h
    · next hempty =>
      obtain ⟨rfl, rfl⟩ := Prod.mk.inj h
      have hnil : x.newReturns = [] ∧ x.newEdges = [] := by
        simpa using hempty
      exact ⟨hx, .inr ⟨rfl, hfront, hnil⟩⟩
    · next hsome =>
      have hsome' : x.newReturns ≠ [] ∨ x.newEdges ≠ [] := by
        simpa [imp_iff_not_or] using hsome
      generalize hnext : x.propagateNext code = p at h
      obtain ⟨z, error⟩ := p
      obtain ⟨rfl, rfl⟩ := Prod.mk.inj h
      cases error with
      | some e => exact absurd rfl (hv e)
      | none =>
        obtain ⟨hvalid, hcomplete, hserves⟩ := propagateNext_spec hx.valid hx.complete hsome' hnext
        exact ⟨⟨hvalid, hcomplete⟩, .inl ⟨rfl, fun bound _ => hserves.advances bound⟩⟩

end Exploration

namespace Building

open Exploration

variable {limits : Limits} {around : Surroundings}

/-- Nothing stops an analysis before its end. -/
structure Unlimited (limits : Limits) (around : Surroundings) : Prop where
  /-- It is never cancelled. -/
  uncancelled : ∀ n, around.isCancelled n = false
  /-- The number of states is not limited. -/
  maxStates : limits.maxStates ≤ 0
  /-- The memory is not limited. -/
  memoryLimit : limits.memoryLimit = 0

/-! ### One step -/

theorem isOverBudget_work (b : Building) (limits : Limits) (around : Surroundings) :
    (b.isOverBudget limits around).1.work = b.work := by
  unfold isOverBudget
  split
  · rfl
  · split <;> rfl

theorem isOverBudget_of_unlimited (b : Building) (hu : Unlimited limits around) :
    (b.isOverBudget limits around).2 = false := by
  have hstates : b.hasTooManyStates limits = false := by
    simp [hasTooManyStates, hu.maxStates]
  simp [isOverBudget, hstates, hu.memoryLimit]

/-- A checkpoint goes on or stops before the end, and adds at most an event to the log. -/
theorem checkpoint_spec {b b' : Building} {v : Verdict} (h : b.checkpoint limits around = (b', v)) :
    v = .goOn ∧ b'.work = b.work ∨
      ¬ Unlimited limits around ∧ (v = .ended .stopped ∨ v = .ended .exhausted) ∧
        ∃ e, b'.work = b.work.note e := by
  unfold checkpoint poll at h
  cases hcancel : around.isCancelled b.polls with
  | true =>
    simp only [hcancel, Prod.mk.injEq] at h
    obtain ⟨rfl, rfl⟩ := h
    refine .inr ⟨fun hu => ?_, .inl rfl, _, rfl⟩
    rw [hu.uncancelled] at hcancel
    exact Bool.false_ne_true hcancel
  | false =>
    simp only [hcancel] at h
    have hwork := isOverBudget_work { b with polls := b.polls + 1 } limits around
    have hunlimited : Unlimited limits around →
        (isOverBudget { b with polls := b.polls + 1 } limits around).2 = false :=
      isOverBudget_of_unlimited _
    generalize isOverBudget { b with polls := b.polls + 1 } limits around = p at h hwork hunlimited
    obtain ⟨b₁, isOver⟩ := p
    dsimp only at hwork
    cases isOver with
    | true =>
      simp only [Prod.mk.injEq] at h
      obtain ⟨rfl, rfl⟩ := h
      refine .inr ⟨fun hu => Bool.false_ne_true (hunlimited hu).symm, .inr rfl,
        .outOfBudget b₁.explored, ?_⟩
      rw [Building.note, hwork]
    | false =>
      simp only [Prod.mk.injEq] at h
      obtain ⟨rfl, rfl⟩ := h
      exact .inl ⟨rfl, hwork⟩

/-- A step is its turn, or a check ends the run: behind the turn of a state, or before the turn of a
queue. -/
theorem step_cases {b b' : Building} {v : Verdict} (h : b.step code limits around = (b', v)) :
    (b'.work, v) = b.work.turn code limits.vectors ∨
      ¬ Unlimited limits around ∧ ∃ e,
        (v = .ended .stopped ∨ v = .ended .exhausted) ∧ (b.work.turn code limits.vectors).2 = .goOn ∧
            b'.work = (b.work.turn code limits.vectors).1.note e ∨
          v = .ended .stopped ∧ b'.work = b.work.note e := by
  unfold step at h
  split at h
  · next id rest hfront =>
    rw [turn_of_cons hfront]
    unfold exploreStep take at h
    dsimp only at h
    split at h
    · next work error hexplore =>
      obtain ⟨rfl, rfl⟩ := Prod.mk.inj h
      rw [hexplore]
      exact .inl rfl
    · next work hexplore =>
      rw [hexplore]
      split at h
      · rcases checkpoint_spec h with ⟨rfl, hwork⟩ | ⟨hlimited, hended, e, hwork⟩
        · exact .inl (Prod.ext hwork rfl)
        · exact .inr ⟨hlimited, e, .inl ⟨hended, rfl, hwork⟩⟩
      · obtain ⟨rfl, rfl⟩ := Prod.mk.inj h
        exact .inl rfl
  · next hfront =>
    rw [turn_of_nil hfront]
    split at h
    · next hempty =>
      obtain ⟨rfl, rfl⟩ := Prod.mk.inj h
      exact .inl (by rw [if_pos hempty])
    · next hsome =>
      rw [if_neg hsome]
      unfold propagateStep poll at h
      cases hcancel : around.isCancelled b.polls with
      | true =>
        simp only [hcancel, Prod.mk.injEq] at h
        obtain ⟨rfl, rfl⟩ := h
        refine .inr ⟨fun hu => ?_, _, .inr ⟨rfl, rfl⟩⟩
        rw [hu.uncancelled] at hcancel
        exact Bool.false_ne_true hcancel
      | false =>
        simp only [hcancel] at h
        generalize b.work.propagateNext code = p at h ⊢
        obtain ⟨work, error⟩ := p
        cases error with
        | none =>
          obtain ⟨rfl, rfl⟩ := Prod.mk.inj h
          exact .inl rfl
        | some error =>
          obtain ⟨rfl, rfl⟩ := Prod.mk.inj h
          exact .inl rfl

/-- Every step that does not fail keeps the invariant. It goes on and makes progress, or finds that
nothing waits, or ends because of a limit. -/
theorem step_spec {b b' : Building} {v : Verdict} (hb : b.work.Invariant code limits.vectors start)
    (h : b.step code limits around = (b', v)) (hv : ∀ e, v ≠ .failed e) :
    b'.work.Invariant code limits.vectors start ∧
      (v = .goOn ∧ (∀ bound, stateBound ≤ bound → Advances bound b.work b'.work) ∨
        v = .ended .complete ∧ b'.work.Idle ∨
        ¬ Unlimited limits around ∧ ∃ how, how ≠ .complete ∧ v = .ended how) := by
  rcases step_cases h with hturn | ⟨hlimited, e, ⟨hended, hgoOn, heq⟩ | ⟨rfl, heq⟩⟩
  · obtain ⟨hinv, hcases⟩ := hb.turn hturn.symm hv
    exact ⟨hinv, hcases.imp_right .inl⟩
  · have hfine : ∀ e, (b.work.turn code limits.vectors).2 ≠ .failed e := by
      intro e
      rw [hgoOn]
      simp
    have hinv := (hb.turn rfl hfine).1
    rw [heq]
    refine ⟨hinv.note e, .inr (.inr ⟨hlimited, ?_⟩)⟩
    rcases hended with rfl | rfl
    · exact ⟨_, by simp, rfl⟩
    · exact ⟨_, by simp, rfl⟩
  · rw [heq]
    exact ⟨hb.note e, .inr (.inr ⟨hlimited, _, by simp, rfl⟩)⟩

/-! ### Runs -/

/-- How a run ends where `P` holds before each of its steps: its fuel is used up, or it is cancelled from the
outset, or a step ends it or fails. -/
inductive EndsFrom (code : Code) (limits : Limits) (around : Surroundings) (P : Building → Prop) :
    Building → Except RunError Ending → Prop where
  | cutOff {b : Building} (hb : P b) : EndsFrom code limits around P b (.ok .stopped)
  | ended {b b' : Building} {how : Ending} (hb : P b) (h : b.step code limits around = (b', .ended how)) :
      EndsFrom code limits around P b' (.ok how)
  | failed {b b' : Building} {e : RunError} (hb : P b) (h : b.step code limits around = (b', .failed e)) :
      EndsFrom code limits around P b' (.error e)

theorem loop_ends {P : Building → Prop}
    (hgoOn : ∀ {b b' : Building}, P b → b.step code limits around = (b', .goOn) → P b') {fuel : Nat}
    {b b' : Building} {result : Except RunError Ending} (hb : P b)
    (h : loop code limits around fuel b = (b', result)) :
    EndsFrom code limits around P b' result := by
  induction fuel generalizing b with
  | zero =>
    obtain ⟨rfl, rfl⟩ := Prod.mk.inj h
    exact .cutOff hb
  | succ fuel ih =>
    rw [loop] at h
    generalize hstep : b.step code limits around = p at h
    obtain ⟨b₁, v⟩ := p
    cases v with
    | goOn => exact ih (hgoOn hb hstep) h
    | ended how =>
      obtain ⟨rfl, rfl⟩ := Prod.mk.inj h
      exact .ended hb hstep
    | failed e =>
      obtain ⟨rfl, rfl⟩ := Prod.mk.inj h
      exact .failed hb hstep

theorem run_cases (code : Code) (limits : Limits) (around : Surroundings) (start : State) :
    around.isCancelled 0 = true ∧
        run code limits around start = ({ work := .start start, polls := 1 }, .ok .stopped) ∨
      around.isCancelled 0 = false ∧ run code limits around start =
        loop code limits around stepBound { work := .start start, polls := 1 } := by
  unfold run
  generalize stepBound = fuel
  cases hcancel : around.isCancelled 0 with
  | true => exact .inl ⟨rfl, by simp only [poll, hcancel]⟩
  | false => exact .inr ⟨rfl, by simp only [poll, hcancel]⟩

/-- What holds at the beginning and is kept by every step that goes on holds before the step with which
a run ends. -/
theorem run_ends {P : Building → Prop} (hstart : P { work := .start start, polls := 1 })
    (hgoOn : ∀ {b b' : Building}, P b → b.step code limits around = (b', .goOn) → P b')
    {b : Building} {result : Except RunError Ending} (h : run code limits around start = (b, result)) :
    EndsFrom code limits around P b result := by
  rcases run_cases code limits around start with ⟨-, hrun⟩ | ⟨-, hrun⟩
  · rw [hrun] at h
    obtain ⟨rfl, rfl⟩ := Prod.mk.inj h
    exact .cutOff hstart
  · rw [hrun] at h
    exact loop_ends hgoOn hstart h

/-- What every step keeps holds at the end of a run. -/
theorem run_keeps {P : Building → Prop} (hstart : P { work := .start start, polls := 1 })
    (hstep : ∀ {b b' : Building} {v : Verdict}, P b → b.step code limits around = (b', v) → P b') :
    P (run code limits around start).1 := by
  generalize hrun : run code limits around start = p
  obtain ⟨b, result⟩ := p
  cases run_ends hstart hstep hrun with
  | cutOff hb => exact hb
  | ended hb h => exact hstep hb h
  | failed hb h => exact hstep hb h

theorem run_invariant {b : Building} {how : Ending}
    (h : run code limits around start = (b, .ok how)) :
    b.work.Invariant code limits.vectors start := by
  cases run_ends (P := fun b => b.work.Invariant code limits.vectors start) (invariant_start start)
    (fun hb hstep => (step_spec hb hstep (by simp)).1) h with
  | cutOff hb => exact hb
  | ended hb hstep => exact (step_spec hb hstep (by simp)).1

/-- Building is complete only when nothing waits. -/
theorem run_idle {b : Building} (h : run code limits around start = (b, .ok .complete)) :
    b.work.Idle := by
  cases run_ends (P := fun b => b.work.Invariant code limits.vectors start) (invariant_start start)
    (fun hb hstep => (step_spec hb hstep (by simp)).1) h with
  | ended hb hstep =>
    obtain ⟨-, ⟨hcontra, -⟩ | ⟨-, hidle⟩ | ⟨-, how, hne, heq⟩⟩ := step_spec hb hstep (by simp)
    · simp at hcontra
    · exact hidle
    · exact absurd (Verdict.ended.inj heq).symm hne

/-- A run with enough fuel and without limits is complete. -/
theorem loop_complete {bound : Nat} (hbound : stateBound ≤ bound) (hu : Unlimited limits around)
    {fuel : Nat} {b b' : Building} {how : Ending} (hb : b.work.Invariant code limits.vectors start)
    (hfuel : b.work.newReturns.length + b.work.newEdges.length + 2 * bound + 8 * (bound * bound) + 1 ≤
      fuel + 2 * exploredBelow b.work.graph bound + b.work.graph.edges.size)
    (h : loop code limits around fuel b = (b', .ok how)) : how = .complete := by
  induction fuel generalizing b with
  | zero =>
    have hwf := hb.valid.consistent.wellFormed
    have hexplored := exploredBelow_le b.work.graph bound
    have hsize : b.work.graph.size ≤ bound := hwf.size_le.trans hbound
    have hedges := hwf.edges_size_le.trans
      (Nat.mul_le_mul_left 8 (Nat.mul_le_mul hsize hsize))
    omega
  | succ fuel ih =>
    rw [loop] at h
    generalize hstep : b.step code limits around = p at h
    obtain ⟨b₁, v⟩ := p
    cases v with
    | goOn =>
      obtain ⟨hinv, ⟨-, hadvance⟩ | ⟨hcontra, -⟩ | ⟨hlimited, -⟩⟩ := step_spec hb hstep (by simp)
      · have hless := hadvance bound hbound
        unfold Advances at hless
        exact ih hinv (by omega) h
      · simp at hcontra
      · exact absurd hu hlimited
    | ended how =>
      obtain ⟨-, ⟨hcontra, -⟩ | ⟨hcomplete, -⟩ | ⟨hlimited, -⟩⟩ := step_spec hb hstep (by simp)
      · simp at hcontra
      · rw [← Except.ok.inj (Prod.mk.inj h).2]
        exact Verdict.ended.inj hcomplete
      · exact absurd hu hlimited
    | failed e => simp at h

/-- Without cancellation and budgets, building that does not fail is complete. -/
theorem run_complete (hu : Unlimited limits around) {b : Building} {how : Ending}
    (h : run code limits around start = (b, .ok how)) : how = .complete := by
  rcases run_cases code limits around start with ⟨hcancel, -⟩ | ⟨-, hrun⟩
  · rw [hu.uncancelled] at hcancel
    exact absurd hcancel Bool.false_ne_true
  · rw [hrun] at h
    refine loop_complete le_rfl hu (invariant_start start) ?_ h
    rw [stepBound]
    change 0 + 0 + 2 * stateBound + 8 * (stateBound * stateBound) + 1 ≤ _
    omega

end Building

end StackDepth
