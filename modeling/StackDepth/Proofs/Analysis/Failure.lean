import Mathlib
import StackDepth.Proofs.Analysis.Fixpoint

/-!
# Why an analysis fails

An analysis that fails has reached a state from which it has no way to go on, or a call behind which
there is no instruction. No other error occurs; in particular no state is explored while it waits on the
frontier.

* `Exploration.explore_failure`, `Exploration.walk_failure`: the two places where a turn can fail;
* `Exploration.Invariant.turn_failure`: what an error of a turn tells;
* `Building.run_failure`: what an error of a run tells.
-/

namespace StackDepth

variable {code : Code} {vectors : Int} {start : State}

/-- A call behind which there is no instruction. -/
def Code.Lost (code : Code) (vectors : Int) (s : State) : Prop :=
  ∃ t cause, code.Move vectors s .call t ∧ code.next s.pc = .error cause

/-- An error that comes from a state which can be reached. -/
structure Failure (code : Code) (vectors : Int) (start : State) (error : RunError) : Prop where
  /-- A reachable state cannot be executed, or it makes a call behind which nothing stands. -/
  state : ∃ s, Derivable code vectors start (.reached s) ∧ (code.Stuck s ∨ code.Lost vectors s)
  /-- The frontier never refuses a call. -/
  ne_frontier : ∀ cause, error ≠ .frontier cause

namespace Exploration

/-! ### Exploring a state -/

theorem apply_failure {x y : Exploration} {id : StateId} {s t : State} {e : Effect} {error : RunError}
    (hexec : code.Executes s t e) (h : x.apply code id t e = (y, some error)) :
    code.Stuck s ∧ ∀ cause, error ≠ .frontier cause := by
  cases e with
  | indirectCall | indirectJump =>
    rw [apply] at h
    obtain rfl := hexec.eq_of_delegated rfl
    cases htargets : code.targets? t.pc with
    | some targets => simp [htargets] at h
    | none =>
      simp only [htargets, Prod.mk.injEq, Option.some.injEq] at h
      exact ⟨.targets hexec (by simp) htargets, fun cause => h.2 ▸ by simp⟩
  | _ => simp [apply] at h

/-- Exploring the latest state of the frontier fails only if the state is stuck. -/
theorem explore_failure {x y : Exploration} {id : StateId} {error : RunError}
    (hid : id < x.graph.nodes.size)
    (h : ({ x with graph := x.graph.dropFrontier id } : Exploration).explore code vectors id =
      (y, some error)) :
    code.Stuck (x.graph.state id) ∧ ∀ cause, error ≠ .frontier cause := by
  have hbegin : (x.graph.dropFrontier id).markExplored id = x.graph.begin id := rfl
  have hstate : (x.graph.begin id).state id = x.graph.state id :=
    (x.graph.sameShape_begin id).state_eq id
  rw [explore, if_neg (by simp [Graph.onFrontier_dropFrontier hid])] at h
  simp only [hbegin, hstate] at h
  split at h
  · next cause hfetch =>
    obtain ⟨-, herror⟩ := Prod.mk.inj h
    exact ⟨.fetch hfetch, fun _ => (Option.some.inj herror) ▸ by simp⟩
  · next cell hfetch =>
    unfold execute at h
    dsimp only at h
    split at h
    · next t cause hstep =>
      obtain ⟨-, herror⟩ := Prod.mk.inj h
      exact ⟨.step hfetch hstep, fun _ => (Option.some.inj herror) ▸ by simp⟩
    · next t e hstep => exact apply_failure ⟨cell, hfetch, hstep⟩ h

/-! ### Walking backwards -/

theorem stitch_failure {x y : Exploration} (hx : x.Valid code vectors start) {a : Edge}
    (ha : a ∈ x.graph.edges) {rets : List StateId} {error : RunError}
    (h : x.stitch code a rets = (y, some error)) : Failure code vectors start error := by
  have hresume : resumeAddress code x.graph a = code.resume a.kind (x.graph.state a.source) := rfl
  rw [stitch, hresume] at h
  cases haddr : code.resume a.kind (x.graph.state a.source) with
  | ok addr => simp [haddr] at h
  | error cause =>
    simp only [haddr, Prod.mk.injEq, Option.some.injEq] at h
    obtain ⟨-, hedge⟩ := hx.consistent.edges a ha
    have hcall : a.kind = .call ∧ code.next (x.graph.state a.source).pc = .error cause := by
      unfold Code.resume at haddr
      split at haddr
      · next hkind => exact ⟨hkind, haddr⟩
      · simp at haddr
    refine ⟨⟨_, hedge.grounded, .inr ?_⟩, fun _ => h.2 ▸ by simp⟩
    rcases derivable_edge_cases hedge with hmove | ⟨_, _, _, kind, _, _, _, _, _, _, hkind, _⟩
    · exact ⟨_, cause, hcall.1 ▸ hmove, hcall.2⟩
    · rcases returnEdgeKind_eq kind with hret | hreti
      · exact absurd (hcall.1.symm.trans (hkind.trans hret)) (by simp)
      · exact absurd (hcall.1.symm.trans (hkind.trans hreti)) (by simp)

theorem walkEdges_failure {n : StateId} {delta : List StateId} {es : List EdgeId}
    {x y : Exploration} {work work' : List WalkItem} {error : RunError}
    (hx : x.Valid code vectors start)
    (hes : ∀ e ∈ es, ∃ a, x.graph.edges[e]? = some a ∧ a.target = n)
    (hdelta : ∀ r ∈ delta, (x.graph.node n).returns.contains r = true)
    (h : walkEdges code delta es x work = (y, work', some error)) :
    Failure code vectors start error := by
  induction es generalizing x work with
  | nil => simp [walkEdges] at h
  | cons e es ih =>
    obtain ⟨a, ha, rfl⟩ := hes e List.mem_cons_self
    have hmem : a ∈ x.graph.edges := Array.mem_of_getElem? ha
    rw [walkEdges, Graph.edge_eq ha] at h
    split at h
    · next hframe =>
      split at h
      · next z hstitch =>
        obtain ⟨hz, hext, -⟩ := stitch_spec hx hmem hframe hdelta hstitch
        refine ih hz (fun f hf => ?_) (fun r hr => ?_) h
        · obtain ⟨b, hb, ht⟩ := hes f (List.mem_cons_of_mem _ hf)
          exact ⟨b, hext.grows.edge_eq f b hb, ht⟩
        · rw [(hext.marks a.target).2.2]
          exact hdelta r hr
      · next z error' hstitch =>
        obtain ⟨-, herror⟩ := Prod.mk.inj h
        rw [← Option.some.inj (Prod.mk.inj herror).2]
        exact stitch_failure hx hmem hstitch
    · exact ih hx (fun f hf => hes f (List.mem_cons_of_mem _ hf)) hdelta h

theorem walk_failure {bound : Nat} (hbound : stateBound ≤ bound) {fuel : Nat} {work : List WalkItem}
    {x y : Exploration} {error : RunError} (hx : Walking code vectors start bound fuel work x)
    (h : walk code fuel work x = (y, some error)) : Failure code vectors start error := by
  induction fuel generalizing x work with
  | zero => simp [walk] at h
  | succ fuel ih =>
    cases work with
    | nil => simp [walk] at h
    | cons item work =>
      rw [walk] at h
      generalize habsorb : x.absorb item.node item.delta = p at h
      obtain ⟨z, fresh⟩ := p
      cases fresh with
      | nil => exact ih (hx.drop hbound habsorb) h
      | cons r rest =>
        dsimp only at h
        split at h
        · next w work' hedges =>
          exact ih (hx.carry hbound habsorb (List.cons_ne_nil r rest) hedges).1 h
        · next w work' error' hedges =>
          obtain ⟨hz, -, hes, hdelta, -⟩ := hx.taken habsorb
          rw [← Option.some.inj (Prod.mk.inj h).2]
          exact walkEdges_failure hz hes hdelta hedges

theorem Service.Justified.failure {v : Service} (hv : v.Justified code vectors start) {y : Exploration}
    {error : RunError} (h : v.perform code = (y, some error)) : Failure code vectors start error := by
  cases v with
  | walk rest item =>
    obtain ⟨hx, hc, hitem⟩ := hv
    exact walk_failure le_rfl (walking_of_item hx hc hitem) h
  | stitch rest a rets =>
    obtain ⟨hx, -, -, e, he, -⟩ := hv
    exact stitch_failure hx (Array.mem_of_getElem? he) h
  | nothing rest => simp [Service.perform] at h

/-! ### Turns -/

theorem Invariant.turn_failure {x y : Exploration} {error : RunError}
    (hx : x.Invariant code vectors start) (h : x.turn code vectors = (y, .failed error)) :
    Failure code vectors start error := by
  have hg := hx.valid.consistent
  -- a turn fails where its part fails
  have hpart : ∀ {z : Exploration} {e : Option RunError}, (z, verdictOf e) = (y, .failed error) →
      (z, e) = (y, some error) := by
    intro z e heq
    obtain ⟨rfl, hverdict⟩ := Prod.mk.inj heq
    cases e with
    | none => simp [verdictOf] at hverdict
    | some e => rw [Verdict.failed.inj hverdict]
  cases hfront : x.graph.frontier with
  | cons id rest =>
    have hid := (hg.frontier.waiting id (hfront ▸ List.mem_cons_self)).1
    rw [turn_of_cons hfront] at h
    obtain ⟨hstuck, hne⟩ := explore_failure (hg.wellFormed.nodes_size ▸ hid) (hpart h)
    exact ⟨⟨_, hg.reached id hid, .inl hstuck⟩, hne⟩
  | nil =>
    rw [turn_of_nil hfront] at h
    split at h
    · simp at h
    · have hnext := hpart h
      rw [propagateNext_eq] at hnext
      exact (service_justified hx.valid hx.complete).failure hnext

end Exploration

/-! ### Runs -/

namespace Building

open Exploration

variable {limits : Limits} {around : Surroundings}

theorem step_failure {b b' : Building} {error : RunError}
    (hb : b.work.Invariant code limits.vectors start)
    (h : b.step code limits around = (b', .failed error)) :
    Failure code limits.vectors start error := by
  rcases step_cases h with hturn | ⟨-, e, ⟨hcontra | hcontra, -⟩ | ⟨hcontra, -⟩⟩
  · exact hb.turn_failure hturn.symm
  · simp at hcontra
  · simp at hcontra
  · simp at hcontra

/-- A run that fails has reached a state that is stuck, or a call behind which there is no
instruction. -/
theorem run_failure {b : Building} {error : RunError}
    (h : run code limits around start = (b, .error error)) :
    Failure code limits.vectors start error := by
  cases run_ends (P := fun b => b.work.Invariant code limits.vectors start) (invariant_start start)
    (fun hb hstep => (step_spec hb hstep (by simp)).1) h with
  | failed hb hstep => exact step_failure hb hstep

end Building

end StackDepth
