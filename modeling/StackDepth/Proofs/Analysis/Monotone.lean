import Mathlib
import StackDepth.Proofs.Analysis.Exactness
import StackDepth.Proofs.Analysis.Failure
import StackDepth.Proofs.Transfer.Monotone

/-!
# The analysis is monotone in its start state

The graphs of two start states have nothing to do with each other: states that are apart in one may be
one state in the other. Configurations do: from the larger start state every step of a configuration can
be followed by a configuration above it, frame by frame. So the larger start state reaches a state above
every state that the smaller one reaches, and reaches all its heights. The reports follow, since they
are exact for configurations, and errors follow, since a stuck state has only stuck states above it.

Main statements:

* `State.Below.move`, `State.Below.ends`, `State.Below.stuck`: what a state above another one does;
* `Configuration.Below.step`, `Configuration.exists_above`: one step, and all of them;
* `analyze_ok_of_below`: an error is never lost;
* `analyze_monotone`: what the report of the larger start state says of the smaller one.
-/

namespace StackDepth

open Exploration (handlerState resumedState)

variable {p : Program} {vectors : Int} {s t u : State} {e : Effect}

/-! ### What a state above another one does -/

namespace State

/-- An instruction that the smaller state executes is executed by the larger one, which allows what the
smaller one does. -/
theorem Below.executes (h : s.Below t) (hp : p.IsEncodable) (hexec : p.code.Executes s u e) :
    ∃ u' e', p.code.Executes t u' e' ∧ Follows (u, e) (u', e') := by
  obtain ⟨cell, hcell, hstep⟩ := hexec
  obtain ⟨i, hi, rfl⟩ := Assembly.exists_of_map_ok hcell
  have hcell' : p.code.fetch t.pc = .ok (.instr i) := h.pc ▸ hcell
  rw [State.stepCell] at hstep
  rcases h.step p.code.next (hp s.pc i hi) with ⟨cause, herror, -⟩ | ⟨v, v', f, f', hv, hv', hfollows⟩
  · simp [hstep] at herror
  · obtain ⟨rfl, hf⟩ := Prod.mk.inj (hstep.symm.trans hv)
    obtain rfl := Except.ok.inj hf
    exact ⟨v', f', ⟨_, hcell', hv'⟩, hfollows⟩

theorem Below.executes_other (h : s.Below t) (hp : p.IsEncodable) (hexec : p.code.Executes s u e)
    (he : ∀ taken, e ≠ .next taken) : ∃ u', p.code.Executes t u' e ∧ u.Below u' := by
  obtain ⟨u', e', hexec', hfollows⟩ := h.executes hp hexec
  cases hfollows with
  | next _ => exact absurd rfl (he _)
  | other hu _ => exact ⟨u', hexec', hu⟩

/-- Every way in which the smaller state continues is one of the larger state. -/
theorem Below.executes_next (h : s.Below t) (hp : p.IsEncodable) {taken : Option State}
    (hexec : p.code.Executes s u (.next taken)) {w : State} (hw : w = u ∨ taken = some w) :
    ∃ w', p.code.Move vectors t .normal w' ∧ w.Below w' := by
  obtain ⟨u', e', hexec', hfollows⟩ := h.executes hp hexec
  cases hfollows with
  | next hnext =>
    obtain ⟨w', hw', hbelow⟩ := hnext w hw
    rcases hw' with rfl | rfl
    · exact ⟨_, .next hexec', hbelow⟩
    · exact ⟨_, .taken hexec', hbelow⟩
  | other _ he => exact absurd rfl (he _)

theorem Below.move (h : s.Below t) (hp : p.IsEncodable) {k : EdgeKind}
    (hmove : p.code.Move vectors s k u) : ∃ u', p.code.Move vectors t k u' ∧ u.Below u' := by
  cases hmove with
  | interrupt hnum =>
    have hhandler := (h.setFlag (.refl .no 0) (show Flag.I < 8 by decide)).goto
    exact ⟨_, .interrupt (h.interrupts hnum), hhandler _⟩
  | next hexec => exact h.executes_next hp hexec (.inl rfl)
  | taken hexec => exact h.executes_next hp hexec (.inr rfl)
  | push hexec =>
    obtain ⟨u', hexec', hu⟩ := h.executes_other hp hexec (by simp)
    exact ⟨u', .push hexec', hu⟩
  | pop hexec =>
    obtain ⟨u', hexec', hu⟩ := h.executes_other hp hexec (by simp)
    exact ⟨u', .pop hexec', hu⟩
  | call hexec =>
    obtain ⟨u', hexec', -⟩ := h.executes_other hp hexec (by simp)
    exact ⟨_, .call hexec', h.goto _⟩
  | indirectCall hexec htargets ha =>
    obtain ⟨u', hexec', -⟩ := h.executes_other hp hexec (by simp)
    exact ⟨_, .indirectCall hexec' (h.pc ▸ htargets) ha, h.goto _⟩
  | indirectJump hexec htargets ha =>
    obtain ⟨u', hexec', -⟩ := h.executes_other hp hexec (by simp)
    exact ⟨_, .indirectJump hexec' (h.pc ▸ htargets) ha, h.goto _⟩

theorem Below.ends (h : s.Below t) (hp : p.IsEncodable) {kind : StateKind}
    (hend : p.code.Ends s kind) : p.code.Ends t kind := by
  cases hend with
  | ret hexec =>
    obtain ⟨u', hexec', -⟩ := h.executes_other hp hexec (by simp)
    exact .ret hexec'
  | reti hexec =>
    obtain ⟨u', hexec', -⟩ := h.executes_other hp hexec (by simp)
    exact .reti hexec'

/-- A stuck state has only stuck states above it: whether there is an instruction, whether it can be
executed and whether its targets are known depends on the program counter alone. -/
theorem Below.stuck (h : s.Below t) (hp : p.IsEncodable) (hstuck : p.code.Stuck s) :
    p.code.Stuck t := by
  cases hstuck with
  | fetch hfetch => exact .fetch (h.pc ▸ hfetch)
  | @step cell u cause hcell hstep =>
    obtain ⟨i, hi, rfl⟩ := Assembly.exists_of_map_ok hcell
    have hcell' : p.code.fetch t.pc = .ok (.instr i) := h.pc ▸ hcell
    rw [State.stepCell] at hstep
    rcases h.step p.code.next (hp s.pc i hi) with ⟨cause', -, herror⟩ | ⟨v, v', f, f', hv, -, -⟩
    · exact .step hcell' (Prod.ext rfl herror)
    · simp [hstep] at hv
  | targets hexec he hnone =>
    obtain ⟨u', hexec', -⟩ :=
      h.executes_other hp hexec (by rcases he with rfl | rfl <;> simp)
    exact .targets hexec' he (h.pc ▸ hnone)

theorem Below.resumed (h : s.Below t) (kind : StateKind) (a : Address) :
    (resumedState s kind a).Below (resumedState t kind a) := by
  unfold resumedState
  split
  · exact (h.setFlag (.refl _ _) (by decide)).goto a
  · exact h.goto a

end State

/-! ### Configurations -/

/-- The frames resume at the same place and height. -/
structure Frame.Below (f g : Frame) : Prop where
  /-- The edge enters a frame. -/
  entersFrame : f.kind.entersFrame = true
  /-- Both frames were entered by an edge of one kind. -/
  kind : f.kind = g.kind
  /-- The caller of the second frame is above that of the first. -/
  caller : f.caller.Below g.caller
  /-- Both were entered at one height. -/
  height : f.height = g.height

namespace Configuration

/-- The second configuration is at the same height, and its state and its callers are above those of the
first. -/
structure Below (c d : Configuration) : Prop where
  /-- The state of the second configuration is above that of the first. -/
  state : c.state.Below d.state
  /-- The heights agree. -/
  height : c.height = d.height
  /-- So do the pending frames, one by one. -/
  frames : List.Forall₂ Frame.Below c.frames d.frames

/-- A configuration above another one follows each of its steps. -/
theorem Below.step {c c' d : Configuration} (h : c.Below d) (hp : p.IsEncodable)
    (hstep : Step p.code vectors c c') : ∃ d', Step p.code vectors d d' ∧ c'.Below d' := by
  rcases step_cases hstep with ⟨k, hmove, hheight, hframes⟩ | ⟨f, kind, a, hframes, hend, ha, hs, hh⟩
  · obtain ⟨u, hmove', hu⟩ := h.state.move hp hmove
    refine ⟨_, step_of_move hmove' d.height d.frames, hu, ?_, ?_⟩
    · rw [hheight, h.height]
    · rw [hframes]
      unfold framesAfter
      split
      · next hk => exact .cons ⟨hk, rfl, h.state, h.height⟩ h.frames
      · exact h.frames
  · have hall := h.frames
    rw [hframes] at hall
    obtain ⟨state, height, frames⟩ := d
    cases hall with
    | @cons _ g _ gs hfg hrest =>
      have hframe : g.kind.entersFrame = true := hfg.kind ▸ hfg.entersFrame
      have ha' : p.code.resume g.kind g.caller = .ok a := by
        rw [Code.resume] at ha ⊢
        rw [← hfg.kind, ← hfg.caller.pc]
        exact ha
      refine ⟨_, step_of_return (h.state.ends hp hend) hframe ha' height gs, ?_, ?_, hrest⟩
      · rw [hs]
        exact h.state.resumed kind a
      · rw [hh]
        exact hfg.height

/-- A larger start state leads to a configuration above every one that a smaller start state leads to. -/
theorem exists_above (h : s.Below t) (hp : p.IsEncodable) {c : Configuration}
    (hc : Reachable p.code vectors s c) : ∃ d, Reachable p.code vectors t d ∧ c.Below d := by
  induction hc with
  | refl => exact ⟨_, .refl, h, rfl, .nil⟩
  | tail _ hstep ih =>
    obtain ⟨d, hd, hbelow⟩ := ih
    obtain ⟨d', hstep', hbelow'⟩ := hbelow.step hp hstep
    exact ⟨d', hd.tail hstep', hbelow'⟩

theorem heights_subset (h : s.Below t) (hp : p.IsEncodable) :
    heights p.code vectors s ⊆ heights p.code vectors t := by
  rintro height ⟨u, fs, hreach⟩
  obtain ⟨d, hd, hbelow⟩ := exists_above h hp hreach
  refine ⟨d.state, d.frames, ?_⟩
  rw [show height = d.height from hbelow.height]
  exact hd

end Configuration

/-! ### Reports -/

/-- Behind an instruction of a program there is an address, so a program loses no call. -/
theorem Program.not_lost (p : Program) (vectors : Int) (s : State) : ¬ p.code.Lost vectors s := by
  rintro ⟨t, cause, hmove, hnext⟩
  have hfetch : ∃ cell, p.code.fetch s.pc = .ok cell := by
    cases hmove with
    | call hexec => exact ⟨_, hexec.choose_spec.1⟩
    | indirectCall hexec _ _ => exact ⟨_, hexec.choose_spec.1⟩
  obtain ⟨cell, hcell⟩ := hfetch
  obtain ⟨i, hi, -⟩ := Assembly.exists_of_map_ok hcell
  simp [Program.code, Flash.next, hi, Except.map] at hnext

/-- Without limits, a report is that of the fixpoint. -/
theorem exact_of_analyze {code : Code} {limits : Limits} {around : Surroundings} {start : State}
    (hu : Building.Unlimited limits around) {r : Report}
    (h : (analyze code limits around start).2 = .ok r) :
    ∃ x : Exploration, x.graph.Exact code limits.vectors start ∧ r = x.fullReport code := by
  rcases analyze_cases (Prod.ext rfl h) with ⟨hexact, hr⟩ | ⟨hlimited, -⟩
  · exact ⟨_, hexact, hr⟩
  · exact absurd hu hlimited

variable {limits : Limits} {around : Surroundings}

/-- If a larger start state gives a report, so does a smaller one: the state at which an analysis fails
has a stuck state above it. -/
theorem analyze_ok_of_below (h : s.Below t) (hp : p.IsEncodable) {x : Exploration}
    (hx : x.graph.Exact p.code limits.vectors t) :
    ∃ r, (analyze p.code limits around s).2 = .ok r := by
  unfold analyze
  split
  · next b error hrun =>
    obtain ⟨⟨u, hu, hfailed⟩, -⟩ := Building.run_failure hrun
    have hstuck := hfailed.resolve_right (p.not_lost limits.vectors u)
    obtain ⟨height, fs, hreach⟩ := (reachable_state_iff u).mpr hu
    obtain ⟨d, hd, hbelow⟩ := Configuration.exists_above h hp hreach
    obtain ⟨id, hid, hstate⟩ := (hx.node_iff d.state).mpr ⟨d.height, d.frames, hd⟩
    have hfree := hx.free id hid
    rw [hstate] at hfree
    exact absurd (hbelow.state.stuck hp hstuck) hfree
  · exact ⟨_, rfl⟩

/-- The analysis is monotone in its start state. Take a program whose instructions are in range, no
budget and no cancellation, and two start states at the same address such that every tracked value of the
second covers every byte that the same value of the first covers. If the analysis from the second gives a
report, so does the analysis from the first; a bound from the second is one from the first, which reports
at most that depth; and where the first has no bound, the second has none or fails. -/
theorem analyze_monotone (hp : p.IsEncodable) (hu : Building.Unlimited limits around)
    (h : s.Below t) :
    ((∃ r', (analyze p.code limits around t).2 = .ok r') →
      ∃ r, (analyze p.code limits around s).2 = .ok r) ∧
    (∀ r', (analyze p.code limits around t).2 = .ok r' → r'.outcome = .bounded →
      ∃ r, (analyze p.code limits around s).2 = .ok r ∧ r.outcome = .bounded ∧ r.depth ≤ r'.depth) ∧
    (∀ r, (analyze p.code limits around s).2 = .ok r → r.outcome = .unbounded →
      (∃ r', (analyze p.code limits around t).2 = .ok r' ∧ r'.outcome = .unbounded) ∨
        ∃ error, (analyze p.code limits around t).2 = .error error) := by
  have hheights : Configuration.heights p.code limits.vectors s ⊆
      Configuration.heights p.code limits.vectors t := Configuration.heights_subset h hp
  have hbounded : ∀ r', (analyze p.code limits around t).2 = .ok r' → r'.outcome = .bounded →
      ∃ r, (analyze p.code limits around s).2 = .ok r ∧ r.outcome = .bounded ∧
        r.depth ≤ r'.depth := by
    intro r' hr' houtcome
    obtain ⟨x', hx', rfl⟩ := exact_of_analyze hu hr'
    obtain ⟨r, hr⟩ : ∃ r, (analyze p.code limits around s).2 = .ok r := analyze_ok_of_below h hp hx'
    obtain ⟨x, hx, rfl⟩ := exact_of_analyze hu hr
    obtain ⟨hfinite', hgreatest'⟩ := Exploration.fullReport_exact hx'
    obtain ⟨hfinite, hgreatest⟩ := Exploration.fullReport_exact hx
    have hfin := hfinite.mpr ((hfinite'.mp houtcome).subset hheights)
    exact ⟨_, hr, hfin, (hgreatest' houtcome).2 (hheights (hgreatest hfin).1)⟩
  refine ⟨fun ⟨r', hr'⟩ => ?_, hbounded, fun r hr houtcome => ?_⟩
  · obtain ⟨x', hx', -⟩ := exact_of_analyze hu hr'
    exact analyze_ok_of_below h hp hx'
  · cases hrun : (analyze p.code limits around t).2 with
    | error error => exact .inr ⟨error, rfl⟩
    | ok r' =>
      refine .inl ⟨r', rfl, ?_⟩
      obtain ⟨x', -, rfl⟩ := exact_of_analyze hu hrun
      refine (x'.fullReport_outcome p.code).resolve_left fun hcontra => ?_
      obtain ⟨r₀, hr₀, hfin, -⟩ := hbounded _ hrun hcontra
      obtain rfl : r = r₀ := Except.ok.inj (hr.symm.trans hr₀)
      rw [houtcome] at hfin
      simp at hfin

/-- A byte is pushed if register 16 is even. -/
def pushIfEven : Program :=
  .ofInstructions [{ op := .SBRC, rr := 16, bit := 0 }, { op := .BREAK }, { op := .PUSH },
    { op := .BREAK }]

/-- The analysis from a known register reports no more than the one from an unknown register. -/
theorem analyze_monotone_of_unknown :
    pushIfEven.IsEncodable ∧
      (State.reset.setReg 16 (.ofByte 1#8)).Below (State.reset.setReg 16 .unknown) ∧
      ∃ r r', (analyze pushIfEven.code {} {} (State.reset.setReg 16 .unknown)).2 = .ok r' ∧
        r'.outcome = .bounded ∧
        (analyze pushIfEven.code {} {} (State.reset.setReg 16 (.ofByte 1#8))).2 = .ok r ∧
        r.outcome = .bounded ∧ r.depth ≤ r'.depth := by
  have hasm : Assembly.assemble "sbrc r16, 0\nbreak\npush r0\nbreak" = .ok pushIfEven := by decide +kernel
  have hp := Assembly.isEncodable_assemble hasm
  have hbelow : (State.reset.setReg 16 (.ofByte 1#8)).Below (State.reset.setReg 16 .unknown) :=
    (State.Below.refl _).setReg (Tribyte.below_unknown _) 16
  have hend : (Building.run pushIfEven.code {} {} (State.reset.setReg 16 .unknown)).2 =
      .ok .complete := by decide +kernel
  have hlevel : ∀ a ∈ (Building.run pushIfEven.code {} {}
      (State.reset.setReg 16 .unknown)).1.work.graph.edges,
      [0, 0, 0, 1].getD a.target 0 = [0, 0, 0, 1].getD a.source 0 + a.weight := by decide +kernel
  obtain ⟨x, r', hrun, hbounded, -⟩ :=
    analyze_of_level hend (fun id => [0, 0, 0, 1].getD id 0) hlevel
  have hr' := congrArg Prod.snd hrun
  have hu : Building.Unlimited {} {} := ⟨fun _ => rfl, le_rfl, rfl⟩
  obtain ⟨-, hmonotone, -⟩ := analyze_monotone hp hu hbelow
  obtain ⟨r, hr, houtcome, hdepth⟩ := hmonotone r' hr' hbounded
  exact ⟨hp, hbelow, r, r', hr', hbounded, hr, houtcome, hdepth⟩

end StackDepth
