import Mathlib
import StackDepth.Analysis.Propagation

/-!
# Summaries

What the analysis computes, stated without the analysis. A state has the transitions of its interrupts
and of its instruction. A transition that enters a frame is matched by every return state that can be
reached from its target without entering another frame; the pair is summarised by one transition from
the caller to the state in which it resumes. The summaries and the return states reached depend on each
other, so both are defined by one set of rules.

Main definitions and statements:

* `Code.Move` and `Code.Ends`: what a state does by itself;
* `Derivable`: the facts that follow from a start state;
* `derivable_returns_iff`: a state reaches a return state exactly by transitions that enter no frame.
-/

namespace StackDepth

open Exploration (handlerState resumedState returnEdgeKind)

namespace Code

/-- The instruction at the program counter of `s` leaves `t` with effect `e`. -/
def Executes (code : Code) (s t : State) (e : Effect) : Prop :=
  ∃ cell, code.fetch s.pc = .ok cell ∧ s.stepCell code.next cell = (t, .ok e)

/-- The transitions of a state that follow from the state alone. -/
inductive Move (code : Code) (vectors : Int) (s : State) : EdgeKind → State → Prop where
  /-- An interrupt fires. -/
  | interrupt {num : Nat} (h : num ∈ s.interrupts) :
      Move code vectors s .interrupt (handlerState vectors s num)
  /-- The next instruction. -/
  | next {t : State} {taken : Option State} (h : code.Executes s t (.next taken)) :
      Move code vectors s .normal t
  /-- The second way to continue. -/
  | taken {t u : State} (h : code.Executes s t (.next (some u))) : Move code vectors s .normal u
  /-- A byte is pushed. -/
  | push {t : State} (h : code.Executes s t .push) : Move code vectors s .push t
  /-- A byte is popped. -/
  | pop {t : State} (h : code.Executes s t .pop) : Move code vectors s .pop t
  /-- A call. -/
  | call {t : State} {a : Address} (h : code.Executes s t (.call a)) :
      Move code vectors s .call { s with pc := a }
  /-- A call through a pointer. -/
  | indirectCall {t : State} {targets : List Address} {a : Address}
      (h : code.Executes s t .indirectCall) (ht : code.targets? s.pc = some targets)
      (ha : a ∈ targets) : Move code vectors s .call { s with pc := a }
  /-- A jump through a pointer. -/
  | indirectJump {t : State} {targets : List Address} {a : Address}
      (h : code.Executes s t .indirectJump) (ht : code.targets? s.pc = some targets)
      (ha : a ∈ targets) : Move code vectors s .normal { s with pc := a }

/-- The instruction of a state is a return. -/
inductive Ends (code : Code) (s : State) : StateKind → Prop where
  /-- A return. -/
  | ret {t : State} (h : code.Executes s t .ret) : Ends code s .ret
  /-- A return from an interrupt. -/
  | reti {t : State} (h : code.Executes s t .reti) : Ends code s .reti

/-- Where a caller or an interrupted state goes on. -/
def resume (code : Code) (kind : EdgeKind) (caller : State) : Except FetchError Address :=
  if kind = .call then code.next caller.pc else .ok caller.pc

theorem Executes.unique {code : Code} {s t u : State} {e f : Effect} (h : code.Executes s t e)
    (h' : code.Executes s u f) : t = u ∧ e = f := by
  obtain ⟨cell, hfetch, hstep⟩ := h
  obtain ⟨cell', hfetch', hstep'⟩ := h'
  obtain rfl : cell = cell' := Except.ok.inj (hfetch.symm.trans hfetch')
  have hsame := hstep.symm.trans hstep'
  simp only [Prod.mk.injEq, Except.ok.injEq] at hsame
  exact hsame

theorem Ends.unique {code : Code} {s : State} {k l : StateKind} (h : code.Ends s k)
    (h' : code.Ends s l) : k = l := by
  cases h with
  | ret h =>
    cases h' with
    | ret _ => rfl
    | reti h' => exact absurd (h.unique h').2 (by simp)
  | reti h =>
    cases h' with
    | ret h' => exact absurd (h.unique h').2 (by simp)
    | reti _ => rfl

theorem Ends.ne_normal {code : Code} {s : State} {k : StateKind} (h : code.Ends s k) :
    k ≠ .normal := by
  cases h <;> simp

/-- A transition of a state by itself is no summary. -/
theorem Move.kind_ne {code : Code} {vectors : Int} {s t : State} {k : EdgeKind}
    (h : code.Move vectors s k t) : k ≠ .ret ∧ k ≠ .reti := by
  cases h <;> simp

end Code

theorem State.branch_not_delegated (s : State) (c : Tribyte) (a : Address) :
    (s.branch c a).2.isDelegated = false := by
  unfold State.branch
  split
  · rfl
  · split <;> rfl

theorem State.proceed_delegated {s : State} {a pc : Address} {i : Instruction}
    (h : ({ s with pc := a }.proceed pc i).2.isDelegated = true) :
    ({ s with pc := a }.proceed pc i).1 = { s with pc := pc } := by
  unfold State.proceed at h ⊢
  split <;> simp_all [Effect.isDelegated, Effect.code]

/-- An instruction that leaves the successor to its caller leaves the state as it was. -/
theorem Code.Executes.eq_of_delegated {code : Code} {s t : State} {e : Effect}
    (h : code.Executes s t e) (he : e.isDelegated = true) : t = s := by
  obtain ⟨cell, -, hstep⟩ := h
  cases cell with
  | reserved n => simp [State.stepCell] at hstep
  | instr i =>
    simp only [State.stepCell, State.step] at hstep
    split at hstep
    · simp only [Prod.mk.injEq, Except.ok.injEq] at hstep
      rw [← hstep.2, State.branch_not_delegated] at he
      exact absurd he Bool.false_ne_true
    · split at hstep
      · split at hstep
        · simp only [Prod.mk.injEq, Except.ok.injEq] at hstep
          rw [← hstep.2, State.branch_not_delegated] at he
          exact absurd he Bool.false_ne_true
        · simp at hstep
      · simp only [Prod.mk.injEq, Except.ok.injEq] at hstep
        rw [← hstep.2] at he
        rw [← hstep.1, State.proceed_delegated he]

/-- The analysis has no way to go on from a state: there is no instruction, or it cannot be executed, or it
is an indirect transfer whose targets are not known. -/
inductive Code.Stuck (code : Code) (s : State) : Prop where
  | fetch {cause : FetchError} (h : code.fetch s.pc = .error cause)
  | step {cell : Cell} {t : State} {cause : StepError} (hfetch : code.fetch s.pc = .ok cell)
      (h : s.stepCell code.next cell = (t, .error cause))
  | targets {t : State} {e : Effect} (h : code.Executes s t e)
      (he : e = .indirectCall ∨ e = .indirectJump) (hnone : code.targets? s.pc = none)

theorem Code.exists_executes {code : Code} {s : State} (h : ¬ code.Stuck s) :
    ∃ t e, code.Executes s t e := by
  cases hfetch : code.fetch s.pc with
  | error cause => exact absurd (.fetch hfetch) h
  | ok cell =>
    generalize hstep : s.stepCell code.next cell = p
    obtain ⟨t, result⟩ := p
    cases result with
    | error cause => exact absurd (.step hfetch hstep) h
    | ok e => exact ⟨t, e, cell, hfetch, hstep⟩

theorem Code.Executes.not_stuck {code : Code} {s t : State} {e : Effect} (h : code.Executes s t e)
    (htargets : e = .indirectCall ∨ e = .indirectJump → code.targets? t.pc ≠ none) :
    ¬ code.Stuck s := by
  rintro (hfetch | ⟨hfetch, hstep⟩ | ⟨h', he, hnone⟩)
  · obtain ⟨cell, hcell, -⟩ := h
    simp [hcell] at hfetch
  · obtain ⟨cell, hcell, hexec⟩ := h
    obtain rfl := Except.ok.inj (hcell.symm.trans hfetch)
    simp [hexec] at hstep
  · obtain ⟨rfl, rfl⟩ := h.unique h'
    refine htargets he ?_
    rwa [h.eq_of_delegated (by rcases he with rfl | rfl <;> rfl)]

/-! ### Rules -/

/-- What the analysis finds out. -/
inductive Fact where
  /-- A state can be reached. -/
  | reached (s : State)
  /-- There is a transition, or a summary, between two states. -/
  | edge (s : State) (kind : EdgeKind) (t : State)
  /-- A return state can be reached without entering a frame. -/
  | returns (s r : State)

/-- The facts that follow from a start state. -/
inductive Derivable (code : Code) (vectors : Int) (start : State) : Fact → Prop where
  /-- The start state. -/
  | start : Derivable code vectors start (.reached start)
  /-- A transition leads to a state. -/
  | target {s t : State} {k : EdgeKind} (h : Derivable code vectors start (.edge s k t)) :
      Derivable code vectors start (.reached t)
  /-- What a state does by itself. -/
  | move {s t : State} {k : EdgeKind} (hs : Derivable code vectors start (.reached s))
      (h : code.Move vectors s k t) : Derivable code vectors start (.edge s k t)
  /-- A return state reaches itself. -/
  | here {s : State} {k : StateKind} (hs : Derivable code vectors start (.reached s))
      (h : code.Ends s k) : Derivable code vectors start (.returns s s)
  /-- A return state that is reached from the target is reached from the source. -/
  | back {s t r : State} {k : EdgeKind} (he : Derivable code vectors start (.edge s k t))
      (hk : k.entersFrame = false) (hr : Derivable code vectors start (.returns t r)) :
      Derivable code vectors start (.returns s r)
  /-- A call or an interrupt is matched by the return states that its target reaches. -/
  | resume {c v r : State} {k : EdgeKind} {kind : StateKind} {a : Address}
      (he : Derivable code vectors start (.edge c k v)) (hk : k.entersFrame = true)
      (hr : Derivable code vectors start (.returns v r)) (hend : code.Ends r kind)
      (ha : code.resume k c = .ok a) :
      Derivable code vectors start (.edge c (returnEdgeKind kind) (resumedState r kind a))

variable {code : Code} {vectors : Int} {start : State}

/-- What a fact presupposes: the states it is about are reached, and a return state is one. -/
def Fact.Grounded (code : Code) (vectors : Int) (start : State) : Fact → Prop
  | .reached _ => True
  | .edge s _ _ => Derivable code vectors start (.reached s)
  | .returns s r =>
      Derivable code vectors start (.reached s) ∧ Derivable code vectors start (.reached r) ∧
        ∃ k, code.Ends r k

theorem Derivable.grounded {f : Fact} (h : Derivable code vectors start f) :
    f.Grounded code vectors start := by
  induction h with
  | start => trivial
  | target _ _ => trivial
  | move hs _ _ => exact hs
  | here hs hend _ => exact ⟨hs, hs, _, hend⟩
  | back _ _ _ ihe ihr => exact ⟨ihe, ihr.2⟩
  | resume _ _ _ _ _ ihe _ => exact ihe

/-- One transition or summary that enters no frame. -/
def PlainStep (code : Code) (vectors : Int) (start s t : State) : Prop :=
  ∃ k : EdgeKind, k.entersFrame = false ∧ Derivable code vectors start (.edge s k t)

theorem derivable_returns_of_path {s r : State} {k : StateKind}
    (hpath : Relation.ReflTransGen (PlainStep code vectors start) s r)
    (hr : Derivable code vectors start (.reached r)) (hend : code.Ends r k) :
    Derivable code vectors start (.returns s r) := by
  induction hpath using Relation.ReflTransGen.head_induction_on with
  | refl => exact .here hr hend
  | head hstep _ ih =>
    obtain ⟨k, hk, he⟩ := hstep
    exact .back he hk ih

/-- What a derivation of a fact about return states gives. -/
def Fact.Walked (code : Code) (vectors : Int) (start : State) : Fact → Prop
  | .returns s r => Relation.ReflTransGen (PlainStep code vectors start) s r
  | _ => True

theorem Derivable.walked {f : Fact} (h : Derivable code vectors start f) :
    f.Walked code vectors start := by
  induction h with
  | here _ _ _ => exact .refl
  | back he hk _ _ ihr => exact .head ⟨_, hk, he⟩ ihr
  | _ => trivial

/-- A state reaches a return state exactly by transitions that enter no frame. -/
theorem derivable_returns_iff {s r : State} (hs : Derivable code vectors start (.reached s)) :
    Derivable code vectors start (.returns s r) ↔
      Relation.ReflTransGen (PlainStep code vectors start) s r ∧ ∃ k, code.Ends r k := by
  constructor
  · intro h
    exact ⟨h.walked, h.grounded.2.2⟩
  · rintro ⟨hpath, k, hend⟩
    refine derivable_returns_of_path hpath ?_ hend
    rcases Relation.ReflTransGen.cases_tail hpath with rfl | ⟨u, -, k, -, he⟩
    · exact hs
    · exact .target he

end StackDepth
