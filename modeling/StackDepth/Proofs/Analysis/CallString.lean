import Mathlib
import StackDepth.Proofs.Analysis.Summary

/-!
# Call strings

The meaning of a program as the analysis sees it: a configuration is an abstract state, the height of the
stack and the frames that are pending. A call or an interrupt pushes a frame that remembers the caller
and its height, and a return goes back to both. There are unboundedly many configurations, but what they
reach is told by summaries: the states are those that can be derived, and the heights are the weights of
walks along derivable transitions.

Main statements:

* `Configuration.step_of_move`, `Configuration.step_of_return`, `Configuration.step_cases`: the two forms
  of a step;
* `Derivable.realized`: every derivable fact is found in configurations;
* `reachable_anchored`: every configuration is found along derivable transitions;
* `reachable_state_iff`, `reachable_height_iff`: states and heights of configurations.
-/

namespace StackDepth

open Exploration (handlerState resumedState returnEdgeKind)

variable {code : Code} {vectors : Int} {start : State}

/-- A call or an interrupt that has not returned. -/
structure Frame where
  /-- A call or an interrupt. -/
  kind : EdgeKind
  /-- The state that made the call or was interrupted. -/
  caller : State
  /-- The height of the stack in that state. -/
  height : Int

/-- A state with the height of the stack and the pending frames, the latest first. -/
structure Configuration where
  /-- The state. -/
  state : State
  /-- The height of the stack. -/
  height : Int
  /-- The pending frames. -/
  frames : List Frame

namespace Configuration

/-- One step of a configuration. -/
inductive Step (code : Code) (vectors : Int) : Configuration → Configuration → Prop where
  /-- An interrupt fires. -/
  | interrupt {s : State} {h : Int} {fs : List Frame} {num : Nat} (hnum : num ∈ s.interrupts) :
      Step code vectors ⟨s, h, fs⟩
        ⟨{ s.setFlag Flag.I .no with pc := vectorAddress num vectors }, h + 2, ⟨.interrupt, s, h⟩ :: fs⟩
  /-- The next instruction. -/
  | next {s t : State} {h : Int} {fs : List Frame} {taken : Option State}
      (hexec : code.Executes s t (.next taken)) : Step code vectors ⟨s, h, fs⟩ ⟨t, h, fs⟩
  /-- The second way to continue. -/
  | taken {s t u : State} {h : Int} {fs : List Frame}
      (hexec : code.Executes s t (.next (some u))) : Step code vectors ⟨s, h, fs⟩ ⟨u, h, fs⟩
  /-- A byte is pushed. -/
  | push {s t : State} {h : Int} {fs : List Frame} (hexec : code.Executes s t .push) :
      Step code vectors ⟨s, h, fs⟩ ⟨t, h + 1, fs⟩
  /-- A byte is popped. -/
  | pop {s t : State} {h : Int} {fs : List Frame} (hexec : code.Executes s t .pop) :
      Step code vectors ⟨s, h, fs⟩ ⟨t, h - 1, fs⟩
  /-- A call. -/
  | call {s t : State} {h : Int} {fs : List Frame} {a : Address}
      (hexec : code.Executes s t (.call a)) :
      Step code vectors ⟨s, h, fs⟩ ⟨{ s with pc := a }, h + 2, ⟨.call, s, h⟩ :: fs⟩
  /-- A call through a pointer. -/
  | indirectCall {s t : State} {h : Int} {fs : List Frame} {targets : List Address} {a : Address}
      (hexec : code.Executes s t .indirectCall) (htargets : code.targets? s.pc = some targets)
      (ha : a ∈ targets) :
      Step code vectors ⟨s, h, fs⟩ ⟨{ s with pc := a }, h + 2, ⟨.call, s, h⟩ :: fs⟩
  /-- A jump through a pointer. -/
  | indirectJump {s t : State} {h : Int} {fs : List Frame} {targets : List Address} {a : Address}
      (hexec : code.Executes s t .indirectJump) (htargets : code.targets? s.pc = some targets)
      (ha : a ∈ targets) : Step code vectors ⟨s, h, fs⟩ ⟨{ s with pc := a }, h, fs⟩
  /-- A return to a caller, which goes on behind the call. -/
  | retCall {s t c : State} {h hc : Int} {fs : List Frame} {a : Address}
      (hexec : code.Executes s t .ret) (ha : code.next c.pc = .ok a) :
      Step code vectors ⟨s, h, ⟨.call, c, hc⟩ :: fs⟩ ⟨{ s with pc := a }, hc, fs⟩
  /-- A return to an interrupted state, which goes on where it was. -/
  | retInterrupt {s t c : State} {h hc : Int} {fs : List Frame} (hexec : code.Executes s t .ret) :
      Step code vectors ⟨s, h, ⟨.interrupt, c, hc⟩ :: fs⟩ ⟨{ s with pc := c.pc }, hc, fs⟩
  /-- A return from an interrupt to a caller. -/
  | retiCall {s t c : State} {h hc : Int} {fs : List Frame} {a : Address}
      (hexec : code.Executes s t .reti) (ha : code.next c.pc = .ok a) :
      Step code vectors ⟨s, h, ⟨.call, c, hc⟩ :: fs⟩
        ⟨{ s.setFlag Flag.I .yes with pc := a }, hc, fs⟩
  /-- A return from an interrupt to an interrupted state. -/
  | retiInterrupt {s t c : State} {h hc : Int} {fs : List Frame} (hexec : code.Executes s t .reti) :
      Step code vectors ⟨s, h, ⟨.interrupt, c, hc⟩ :: fs⟩
        ⟨{ s.setFlag Flag.I .yes with pc := c.pc }, hc, fs⟩

/-- The configurations that a start state leads to. -/
def Reachable (code : Code) (vectors : Int) (start : State) : Configuration → Prop :=
  Relation.ReflTransGen (Step code vectors) ⟨start, 0, []⟩

/-- The frames after a transition that a state has by itself. -/
def framesAfter (s : State) (h : Int) (fs : List Frame) (k : EdgeKind) : List Frame :=
  if k.entersFrame = true then ⟨k, s, h⟩ :: fs else fs

/-- A transition that a state has by itself is a step. -/
theorem step_of_move {s t : State} {k : EdgeKind} (h : code.Move vectors s k t) (height : Int)
    (fs : List Frame) :
    Step code vectors ⟨s, height, fs⟩ ⟨t, height + k.weight, framesAfter s height fs k⟩ := by
  cases h with
  | interrupt hnum => exact .interrupt hnum
  | next hexec => simpa [EdgeKind.weight, framesAfter, EdgeKind.entersFrame] using Step.next hexec
  | taken hexec => simpa [EdgeKind.weight, framesAfter, EdgeKind.entersFrame] using Step.taken hexec
  | push hexec => exact .push hexec
  | pop hexec => exact .pop hexec
  | call hexec => exact .call hexec
  | indirectCall hexec htargets ha => exact .indirectCall hexec htargets ha
  | indirectJump hexec htargets ha =>
    simpa [EdgeKind.weight, framesAfter, EdgeKind.entersFrame] using
      Step.indirectJump hexec htargets ha

/-- A return is a step. -/
theorem step_of_return {s : State} {kind : StateKind} (hend : code.Ends s kind) {f : Frame}
    (hframe : f.kind.entersFrame = true) {a : Address} (ha : code.resume f.kind f.caller = .ok a)
    (height : Int) (fs : List Frame) :
    Step code vectors ⟨s, height, f :: fs⟩ ⟨resumedState s kind a, f.height, fs⟩ := by
  obtain ⟨k, c, hc⟩ := f
  cases k with
  | call =>
    cases hend with
    | ret hexec => exact .retCall hexec ha
    | reti hexec => exact .retiCall hexec ha
  | interrupt =>
    obtain rfl : c.pc = a := Except.ok.inj ha
    cases hend with
    | ret hexec => exact .retInterrupt hexec
    | reti hexec => exact .retiInterrupt hexec
  | _ => exact absurd hframe (by simp [EdgeKind.entersFrame])

/-- A step is a transition that a state has by itself, or a return. -/
theorem step_cases {c d : Configuration} (h : Step code vectors c d) :
    (∃ k, code.Move vectors c.state k d.state ∧ d.height = c.height + k.weight ∧
      d.frames = framesAfter c.state c.height c.frames k) ∨
    ∃ f kind a, c.frames = f :: d.frames ∧ code.Ends c.state kind ∧
      code.resume f.kind f.caller = .ok a ∧ d.state = resumedState c.state kind a ∧
      d.height = f.height := by
  cases h with
  | interrupt hnum => exact .inl ⟨_, .interrupt hnum, rfl, rfl⟩
  | next hexec => exact .inl ⟨_, .next hexec, (add_zero _).symm, rfl⟩
  | taken hexec => exact .inl ⟨_, .taken hexec, (add_zero _).symm, rfl⟩
  | push hexec => exact .inl ⟨_, .push hexec, rfl, rfl⟩
  | pop hexec => exact .inl ⟨_, .pop hexec, rfl, rfl⟩
  | call hexec => exact .inl ⟨_, .call hexec, rfl, rfl⟩
  | indirectCall hexec htargets ha => exact .inl ⟨_, .indirectCall hexec htargets ha, rfl, rfl⟩
  | indirectJump hexec htargets ha =>
    exact .inl ⟨_, .indirectJump hexec htargets ha, (add_zero _).symm, rfl⟩
  | retCall hexec ha => exact .inr ⟨_, _, _, rfl, .ret hexec, ha, rfl, rfl⟩
  | retInterrupt hexec => exact .inr ⟨_, _, _, rfl, .ret hexec, rfl, rfl, rfl⟩
  | retiCall hexec ha => exact .inr ⟨_, _, _, rfl, .reti hexec, ha, rfl, rfl⟩
  | retiInterrupt hexec => exact .inr ⟨_, _, _, rfl, .reti hexec, rfl, rfl, rfl⟩

end Configuration

/-! ### Walks along derivable transitions -/

/-- A walk along derivable transitions and its weight. -/
inductive Walk (code : Code) (vectors : Int) (start : State) : State → State → Int → Prop where
  /-- No transition. -/
  | refl (s : State) : Walk code vectors start s s 0
  /-- One more transition. -/
  | tail {s t u : State} {w : Int} {k : EdgeKind} (h : Walk code vectors start s t w)
      (he : Derivable code vectors start (.edge t k u)) : Walk code vectors start s u (w + k.weight)

theorem Walk.reached {s : State} {w : Int} (h : Walk code vectors start start s w) :
    Derivable code vectors start (.reached s) := by
  cases h with
  | refl => exact .start
  | tail _ he => exact .target he

/-! ### From facts to configurations -/

open StackDepth.Configuration

/-- What a fact says about configurations. -/
def Fact.Realized (code : Code) (vectors : Int) (start : State) : Fact → Prop
  | .reached s => ∃ h fs, Reachable code vectors start ⟨s, h, fs⟩
  | .edge s k t => (∃ h fs, Reachable code vectors start ⟨s, h, fs⟩) ∧
      ∀ h fs, Relation.ReflTransGen (Configuration.Step code vectors) ⟨s, h, fs⟩
        ⟨t, h + k.weight, framesAfter s h fs k⟩
  | .returns s r => ∀ h fs, ∃ h',
      Relation.ReflTransGen (Configuration.Step code vectors) ⟨s, h, fs⟩ ⟨r, h', fs⟩

theorem returnEdgeKind_plain (k : StateKind) :
    (returnEdgeKind k).entersFrame = false ∧ (returnEdgeKind k).weight = 0 := by
  unfold returnEdgeKind
  split <;> exact ⟨rfl, rfl⟩

/-- Every derivable fact is found in configurations: a summary is a call, a run of the callee and its
return. The induction follows the order in which summaries are derived. -/
theorem Derivable.realized {f : Fact} (h : Derivable code vectors start f) :
    f.Realized code vectors start := by
  induction h with
  | start => exact ⟨0, [], .refl⟩
  | target _ ih =>
    obtain ⟨⟨h, fs, hreach⟩, hrun⟩ := ih
    exact ⟨_, _, hreach.trans (hrun h fs)⟩
  | move _ hmove ih => exact ⟨ih, fun h fs => .single (step_of_move hmove h fs)⟩
  | here _ _ _ => exact fun h fs => ⟨h, .refl⟩
  | back _ hk _ ihe ihr =>
    intro h fs
    have hfirst := ihe.2 h fs
    rw [framesAfter, if_neg (by simp [hk])] at hfirst
    obtain ⟨h', hrest⟩ := ihr (h + EdgeKind.weight _) fs
    exact ⟨h', hfirst.trans hrest⟩
  | resume _ hk _ hend ha ihe ihr =>
    refine ⟨ihe.1, fun h fs => ?_⟩
    have hcall := ihe.2 h fs
    rw [framesAfter, if_pos hk] at hcall
    obtain ⟨h', hrun⟩ := ihr (h + EdgeKind.weight _) (_ :: fs)
    rw [framesAfter, if_neg (by simp [returnEdgeKind_plain]), (returnEdgeKind_plain _).2, add_zero]
    exact (hcall.trans hrun).tail (step_of_return hend hk ha h' fs)

/-- A walk leads to a configuration whose height is the weight of the walk. -/
theorem Walk.reachable {s : State} {w : Int} (h : Walk code vectors start start s w) :
    ∃ fs, Reachable code vectors start ⟨s, w, fs⟩ := by
  induction h with
  | refl => exact ⟨[], .refl⟩
  | tail _ he ih =>
    obtain ⟨fs, hreach⟩ := ih
    exact ⟨_, hreach.trans (he.realized.2 _ fs)⟩

/-! ### From configurations to facts -/

/-- A configuration is anchored in the derivable facts if a walk leads to it with its height, the state
is reached from the entry of its latest frame without entering another one, and the same holds of the
frames below. -/
def Anchored (code : Code) (vectors : Int) (start : State) : State → Int → List Frame → Prop
  | s, h, [] => Walk code vectors start start s h
  | s, h, f :: fs => Walk code vectors start start s h ∧
      (∃ v, Derivable code vectors start (.edge f.caller f.kind v) ∧ f.kind.entersFrame = true ∧
        Relation.ReflTransGen (PlainStep code vectors start) v s) ∧
      Anchored code vectors start f.caller f.height fs

theorem Anchored.walk {s : State} {h : Int} {fs : List Frame}
    (ha : Anchored code vectors start s h fs) : Walk code vectors start start s h := by
  cases fs with
  | nil => exact ha
  | cons f fs => exact ha.1

/-- A transition that enters no frame keeps the frames. -/
theorem Anchored.plain {s t : State} {h : Int} {k : EdgeKind} {fs : List Frame}
    (ha : Anchored code vectors start s h fs) (he : Derivable code vectors start (.edge s k t))
    (hk : k.entersFrame = false) : Anchored code vectors start t (h + k.weight) fs := by
  have hwalk := ha.walk.tail he
  cases fs with
  | nil => exact hwalk
  | cons f fs =>
    obtain ⟨-, ⟨v, hv, hframe, hpath⟩, hbelow⟩ := ha
    exact ⟨hwalk, ⟨v, hv, hframe, hpath.tail ⟨k, hk, he⟩⟩, hbelow⟩

/-- One step of a configuration keeps it anchored. A return is summarised by a transition of the caller,
which is anchored by the frames below. -/
theorem Anchored.step {c d : Configuration} (ha : Anchored code vectors start c.state c.height c.frames)
    (h : Configuration.Step code vectors c d) :
    Anchored code vectors start d.state d.height d.frames := by
  rcases step_cases h with ⟨k, hmove, hheight, hframes⟩ | ⟨f, kind, a, hframes, hend, hresume, hs, hh⟩
  · have he := Derivable.move ha.walk.reached hmove
    rw [hheight, hframes, framesAfter]
    split
    · next hk => exact ⟨ha.walk.tail he, ⟨_, he, hk, .refl⟩, ha⟩
    · next hk => exact ha.plain he (by simpa using hk)
  · rw [hframes] at ha
    obtain ⟨hwalk, ⟨v, hv, hframe, hpath⟩, hbelow⟩ := ha
    have hreturns := derivable_returns_of_path hpath hwalk.reached hend
    have hsummary := Derivable.resume hv hframe hreturns hend hresume
    have hresumed := hbelow.plain hsummary (returnEdgeKind_plain kind).1
    rwa [(returnEdgeKind_plain kind).2, add_zero, ← hs, ← hh] at hresumed

/-- Every reachable configuration is anchored. -/
theorem reachable_anchored {c : Configuration} (h : Reachable code vectors start c) :
    Anchored code vectors start c.state c.height c.frames := by
  induction h with
  | refl => exact .refl start
  | tail _ hstep ih => exact ih.step hstep

/-- The states of reachable configurations are those that can be derived. -/
theorem reachable_state_iff (s : State) :
    (∃ h fs, Reachable code vectors start ⟨s, h, fs⟩) ↔
      Derivable code vectors start (.reached s) := by
  constructor
  · rintro ⟨h, fs, hreach⟩
    exact (reachable_anchored hreach).walk.reached
  · exact fun h => h.realized

/-- The heights of reachable configurations are the weights of walks. -/
theorem reachable_height_iff (h : Int) :
    (∃ s fs, Reachable code vectors start ⟨s, h, fs⟩) ↔
      ∃ s, Walk code vectors start start s h := by
  constructor
  · rintro ⟨s, fs, hreach⟩
    exact ⟨s, (reachable_anchored hreach).walk⟩
  · rintro ⟨s, hwalk⟩
    exact ⟨s, hwalk.reachable⟩

end StackDepth
