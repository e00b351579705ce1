import Mathlib
import StackDepth.Proofs.Analysis.Fixpoint
import StackDepth.Proofs.Analysis.Turn

/-!
# Building ends

The loop and the walks inside it run on fuel. Without cancellation and budgets the fuel is never used up:
a run is a finite list of turns and ends when nothing waits or with an error, and every walk is a finite
list of items. No state is taken from the frontier twice, no state is queued twice as a return state and
no edge is queued twice, and an item of a walk that is not dropped enlarges a return set.

* `Exploration.Walks`, `Exploration.walks_of_walking`: walks without fuel;
* `Building.Trace`, `Building.exists_trace`: runs without fuel;
* `Building.Trace.taken_nodup`, `Building.Trace.edges_nodup`: nothing is done twice;
* `Building.run_terminates`: all of this for a run.
-/

namespace StackDepth

variable {code : Code} {vectors : Int} {start : State}

namespace Exploration

/-! ### Walks -/

/-- The return set of a state has gained an element. -/
def Enlarges (x y : Exploration) (id : StateId) : Prop :=
  (∀ r, (x.graph.node id).returns.contains r = true → (y.graph.node id).returns.contains r = true) ∧
    ∃ r, (y.graph.node id).returns.contains r = true ∧ (x.graph.node id).returns.contains r = false

/-- A walk with its result. An item that is not dropped enlarges the return set of its state. -/
inductive Walks (code : Code) :
    List WalkItem → Exploration → Exploration × Option RunError → Prop where
  | done (x : Exploration) : Walks code [] x (x, none)
  | dropped {item : WalkItem} {work : List WalkItem} {x y : Exploration}
      {result : Exploration × Option RunError} (habsorb : x.absorb item.node item.delta = (y, []))
      (hrest : Walks code work y result) : Walks code (item :: work) x result
  | carried {item : WalkItem} {work work' : List WalkItem} {x y z : Exploration}
      {fresh : List StateId} {result : Exploration × Option RunError}
      (habsorb : x.absorb item.node item.delta = (y, fresh)) (hfresh : fresh ≠ [])
      (henlarges : Enlarges x y item.node)
      (hedges : walkEdges code fresh (y.graph.incoming item.node) y work = (z, work', none))
      (hrest : Walks code work' z result) : Walks code (item :: work) x result
  | failed {item : WalkItem} {work work' : List WalkItem} {x y z : Exploration}
      {fresh : List StateId} {error : RunError}
      (habsorb : x.absorb item.node item.delta = (y, fresh)) (hfresh : fresh ≠ [])
      (henlarges : Enlarges x y item.node)
      (hedges : walkEdges code fresh (y.graph.incoming item.node) y work = (z, work', some error)) :
      Walks code (item :: work) x (z, some error)

theorem Absorbs.enlarges {x y : Exploration} {item : WalkItem} {fresh : List StateId}
    (h : Absorbs x y item fresh) (hfresh : fresh ≠ []) : Enlarges x y item.node := by
  obtain ⟨r, hr⟩ := List.exists_mem_of_ne_nil fresh hfresh
  obtain ⟨hdelta, hnew⟩ := (h.mem_fresh r).mp hr
  exact ⟨fun q hq => (h.returns_iff _ q).mpr (.inl hq), r,
    (h.returns_iff _ r).mpr (.inr ⟨rfl, hdelta⟩), hnew⟩

/-- The fuel of a walk is never used up. -/
theorem walks_of_walking {bound : Nat} (hbound : stateBound ≤ bound) {fuel : Nat}
    {work : List WalkItem} {x : Exploration} (hx : Walking code vectors start bound fuel work x) :
    Walks code work x (walk code fuel work x) := by
  induction fuel generalizing x work with
  | zero =>
    obtain rfl := hx.eq_nil hbound
    exact .done x
  | succ fuel ih =>
    cases work with
    | nil => exact .done x
    | cons item work =>
      rw [walk]
      generalize habsorb : x.absorb item.node item.delta = p
      obtain ⟨y, fresh⟩ := p
      cases fresh with
      | nil => exact .dropped habsorb (ih (hx.drop hbound habsorb))
      | cons r rest =>
        have hfresh := List.cons_ne_nil r rest
        have henlarges := (hx.absorbs habsorb).enlarges hfresh
        dsimp only
        split
        · next z work' hedges =>
          exact .carried habsorb hfresh henlarges hedges
            (ih (hx.carry hbound habsorb hfresh hedges).1)
        · next z work' error hedges => exact .failed habsorb hfresh henlarges hedges

/-- The walk of a service, if it is one, ends. -/
def Service.Ends (code : Code) : Service → Prop
  | .walk rest item => Walks code [item] rest (rest.propagate code item.node item.delta)
  | .stitch _ _ _ | .nothing _ => True

theorem Service.Justified.ends {v : Service} (hv : v.Justified code vectors start) : v.Ends code := by
  cases v with
  | walk rest item =>
    obtain ⟨hx, hc, hitem⟩ := hv
    exact walks_of_walking le_rfl (walking_of_item hx hc hitem)
  | stitch rest a rets => trivial
  | nothing rest => trivial

end Exploration

namespace Building

open Exploration

variable {limits : Limits} {around : Surroundings}

/-! ### Runs -/

/-- A turn `t` of a run, in which every walk ends. -/
structure Performs (code : Code) (b : Building) (t : Turn) (b' : Building) : Prop where
  /-- The turn leads from one exploration to the other. -/
  turned : Turned b.work t b'.work
  /-- Where the frontier is empty, the walk of the turn ends. -/
  served : b.work.graph.frontier = [] → b.work.service.Ends code

/-- A run with its turns and its result. -/
inductive Trace (code : Code) (limits : Limits) (around : Surroundings) :
    Building → List Turn → Building × Except RunError Ending → Prop where
  | goOn {b b' : Building} {t : Turn} {ts : List Turn} {result : Building × Except RunError Ending}
      (hstep : b.step code limits around = (b', .goOn)) (hturn : b.Performs code t b')
      (hrest : Trace code limits around b' ts result) : Trace code limits around b (t :: ts) result
  | ended {b b' : Building} {t : Turn} {how : Ending}
      (hstep : b.step code limits around = (b', .ended how)) (hturn : b.Performs code t b') :
      Trace code limits around b [t] (b', .ok how)
  | failed {b b' : Building} {t : Turn} {error : RunError}
      (hstep : b.step code limits around = (b', .failed error)) (hturn : b.Performs code t b') :
      Trace code limits around b [t] (b', .error error)

/-- The fuel of the loop is never used up, if it does not count as cancelled. -/
theorem exists_trace (hu : Unlimited limits around) {fuel : Nat} {b : Building}
    (hb : b.work.Invariant code limits.vectors start) (hbooks : b.work.Balanced)
    (hend : (loop code limits around fuel b).2 ≠ .ok .stopped) :
    ∃ ts, Trace code limits around b ts (loop code limits around fuel b) := by
  induction fuel generalizing b with
  | zero => exact absurd rfl hend
  | succ fuel ih =>
    rw [loop] at hend ⊢
    generalize hstep : b.step code limits around = p at hend ⊢
    obtain ⟨b', v⟩ := p
    obtain ⟨t, hturned⟩ | ⟨hlimited, -⟩ := step_turned hbooks hstep
    · have hturn : b.Performs code t b' :=
        ⟨hturned, fun _ => (service_justified hb.valid hb.complete).ends⟩
      cases v with
      | goOn =>
        obtain ⟨ts, hrest⟩ := ih (step_spec hb hstep (by simp)).1 hturned.balanced hend
        exact ⟨t :: ts, .goOn hstep hturn hrest⟩
      | ended how => exact ⟨[t], .ended hstep hturn⟩
      | failed error => exact ⟨[t], .failed hstep hturn⟩
    · exact absurd hu hlimited

namespace Trace

variable {b : Building} {ts : List Turn} {result : Building × Except RunError Ending}

/-- The states that a run takes from the frontier. -/
def taken (ts : List Turn) : List StateId := ts.flatMap fun t => t.taken.toList

/-- The states that a run queues as return states. -/
def returns (ts : List Turn) : List StateId := ts.flatMap Turn.returns

/-- The edges that a run queues. -/
def edges (ts : List Turn) : List EdgeId := ts.flatMap Turn.edges

/-- A run goes on from a turn: what is taken later was not explored at the beginning. -/
theorem taken_cons {x y : Exploration} {t : Turn} (ht : Turned x t y)
    (hnodup : (taken ts).Nodup) (hlater : ∀ id ∈ taken ts, (y.graph.node id).explored = false) :
    (taken (t :: ts)).Nodup ∧ ∀ id ∈ taken (t :: ts), (x.graph.node id).explored = false := by
  have hbefore : ∀ id ∈ taken ts, t.taken ≠ some id ∧ (x.graph.node id).explored = false := by
    intro id hid
    have hunexplored := hlater id hid
    have hiff := ht.explored_iff id
    rw [hunexplored] at hiff
    refine ⟨fun heq => Bool.false_ne_true (hiff.mpr (.inl heq)), ?_⟩
    by_contra hexp
    exact Bool.false_ne_true (hiff.mpr (.inr (by simpa using hexp)))
  rw [taken, List.flatMap_cons]
  cases htaken : t.taken with
  | none => exact ⟨hnodup, fun id hid => (hbefore id hid).2⟩
  | some first =>
    refine ⟨List.nodup_cons.mpr ⟨fun hmem => (hbefore first hmem).1 htaken, hnodup⟩, fun id hid => ?_⟩
    rcases List.mem_cons.mp hid with rfl | hid
    · exact ht.taken_fresh id htaken
    · exact (hbefore id hid).2

/-- No state is taken twice, since it is explored when it has been taken. -/
theorem taken_nodup (h : Trace code limits around b ts result) :
    (taken ts).Nodup ∧ ∀ id ∈ taken ts, (b.work.graph.node id).explored = false := by
  induction h with
  | goOn _ hturn _ ih => exact taken_cons hturn.turned ih.1 ih.2
  | ended _ hturn => exact taken_cons hturn.turned List.nodup_nil (by simp [taken])
  | failed _ hturn => exact taken_cons hturn.turned List.nodup_nil (by simp [taken])

theorem returns_cons {x y : Exploration} {t : Turn} (ht : Turned x t y)
    (hrest : (returns ts).Sublist (taken ts)) : (returns (t :: ts)).Sublist (taken (t :: ts)) := by
  rw [returns, taken, List.flatMap_cons, List.flatMap_cons]
  refine List.Sublist.append ?_ hrest
  rcases ht.returns_taken with hnone | ⟨id, htaken, hone⟩
  · rw [hnone]
    exact List.nil_sublist _
  · rw [hone, htaken]
    exact List.Sublist.refl _

/-- A state is queued as a return state in the turn that takes it. -/
theorem returns_sublist (h : Trace code limits around b ts result) :
    (returns ts).Sublist (taken ts) := by
  induction h with
  | goOn _ hturn _ ih => exact returns_cons hturn.turned ih
  | ended _ hturn => exact returns_cons hturn.turned (List.Sublist.refl _)
  | failed _ hturn => exact returns_cons hturn.turned (List.Sublist.refl _)

/-- A run goes on from a turn: the edges that are queued later are added later. -/
theorem edges_cons {x y : Exploration} {t : Turn} (ht : Turned x t y)
    (hnodup : (edges ts).Nodup) (hlater : ∀ e ∈ edges ts, y.graph.edges.size ≤ e) :
    (edges (t :: ts)).Nodup ∧ ∀ e ∈ edges (t :: ts), x.graph.edges.size ≤ e := by
  rw [edges, List.flatMap_cons]
  refine ⟨List.nodup_append.mpr ⟨ht.edges_nodup, hnodup, fun e he f hf heq => ?_⟩, fun e he => ?_⟩
  · exact absurd ((ht.edges_new e he).2.trans_le (hlater f hf)) (heq ▸ lt_irrefl e)
  · rcases List.mem_append.mp he with he | he
    · exact (ht.edges_new e he).1
    · exact ht.edges_size_le.trans (hlater e he)

/-- No edge is queued twice, since it is queued in the turn that adds it. -/
theorem edges_nodup (h : Trace code limits around b ts result) :
    (edges ts).Nodup ∧ ∀ e ∈ edges ts, b.work.graph.edges.size ≤ e := by
  induction h with
  | goOn _ hturn _ ih => exact edges_cons hturn.turned ih.1 ih.2
  | ended _ hturn => exact edges_cons hturn.turned List.nodup_nil (by simp [edges])
  | failed _ hturn => exact edges_cons hturn.turned List.nodup_nil (by simp [edges])

end Trace

/-- Without cancellation and budgets, building takes finitely many turns, with finite walks in them, and
ends when nothing waits or with an error. No state is taken or queued twice, and no edge is queued
twice. -/
theorem run_terminates (hu : Unlimited limits around) (code : Code) (start : State) :
    ((run code limits around start).2 = .ok .complete ∨
      ∃ error, (run code limits around start).2 = .error error) ∧
    ∃ ts, Trace code limits around { work := .start start, polls := 1 } ts
        (run code limits around start) ∧
      (Trace.taken ts).Nodup ∧ (Trace.returns ts).Nodup ∧ (Trace.edges ts).Nodup := by
  have hresult : (run code limits around start).2 = .ok .complete ∨
      ∃ error, (run code limits around start).2 = .error error := by
    generalize hrun : run code limits around start = p
    obtain ⟨b, result⟩ := p
    cases result with
    | error error => exact .inr ⟨error, rfl⟩
    | ok how =>
      obtain rfl := run_complete hu hrun
      exact .inl rfl
  have hloop : run code limits around start =
      loop code limits around stepBound { work := .start start, polls := 1 } := by
    simp only [run, poll, hu.uncancelled]
  have hend : (run code limits around start).2 ≠ .ok .stopped := by
    rcases hresult with h | ⟨error, h⟩
    · rw [h]
      simp
    · rw [h]
      simp
  rw [hloop] at hend
  obtain ⟨ts, htrace⟩ := exists_trace hu (invariant_start start) (balanced_start start) hend
  refine ⟨hresult, ts, hloop ▸ htrace, htrace.taken_nodup.1, ?_, htrace.edges_nodup.1⟩
  exact htrace.taken_nodup.1.sublist htrace.returns_sublist

/-- A function that calls itself for ever is analysed in finitely many turns. -/
theorem run_terminates_of_recursion :
    (run (Program.ofInstructions [{ op := .RCALL, k := -1 }]).code {} {} .reset).2 = .ok .complete ∧
    ∃ ts, Trace (Program.ofInstructions [{ op := .RCALL, k := -1 }]).code {} {}
        { work := .start .reset, polls := 1 } ts
        (run (Program.ofInstructions [{ op := .RCALL, k := -1 }]).code {} {} .reset) ∧
      (Trace.taken ts).Nodup ∧ (Trace.returns ts).Nodup ∧ (Trace.edges ts).Nodup :=
  ⟨by decide +kernel, (run_terminates ⟨fun _ => rfl, le_rfl, rfl⟩ _ _).2⟩

end Building

end StackDepth
