import Mathlib
import StackDepth.Proofs.Analysis.Exactness
import StackDepth.Proofs.Processor.Simulation

/-!
# The reported depth bounds the stack

A run of the processor is followed by configurations, and the greatest height of a configuration is what
the analysis reports. So the stack of a run that settles its frames never grows beyond the report.

Frames have to be settled: a return edge of the graph weighs nothing, whatever the callee has left on the
stack. A function that returns above the height at which it was entered leaves more there than the report
accounts for.

Main statements:

* `Processor.Matches.run`: configurations follow every settled run;
* `Processor.height_le_depth`: the reported depth bounds the stack of every settled run;
* `Processor.depth_lt_height_of_leak`: it does not bound the stack of a run that leaves frames unsettled.
-/

namespace StackDepth

namespace Processor

/-- One step that settles the frame it leaves. -/
def SettledStep (p : Program) (vectors : Int) (m n : Processor) : Prop :=
  Step p vectors m n ∧ m.Settles n

variable {p : Program} {vectors : Int} {start : State} {m n : Processor}

theorem StartsAt.matches (h : m.StartsAt start) : m.Matches p ⟨start, 0, []⟩ where
  shown := h.shownBy
  height := h.height.le
  frames := h.frames ▸ .nil

/-- Configurations follow every settled run, if the instruction of each of them can be executed. -/
theorem Matches.run (hp : p.IsEncodable)
    (hexec : ∀ c, Configuration.Reachable p.code vectors start c → ∃ t e, p.code.Executes c.state t e)
    (hm : m.StartsAt start) (h : Relation.ReflTransGen (SettledStep p vectors) m n) :
    ∃ c, Configuration.Reachable p.code vectors start c ∧ n.Matches p c := by
  induction h with
  | refl => exact ⟨_, .refl, hm.matches⟩
  | tail _ hstep ih =>
    obtain ⟨c, hreach, hmatch⟩ := ih
    obtain ⟨d, hnext, hmatch'⟩ := hmatch.step hp (hexec c hreach) hstep.1 hstep.2
    exact ⟨d, hreach.tail hnext, hmatch'⟩

/-- The reported depth bounds the stack: if an analysis of an assembled program reports a bound, then no
run from the start state that settles its frames has a higher stack, whatever the annotations of the
program and the limits of the analysis are. -/
theorem height_le_depth {text : String} {p : Program} (hasm : Assembly.assemble text = .ok p)
    (indirect : List (Address × List Address)) {limits : Limits} {around : Surroundings}
    {x : Exploration} {r : Report}
    (hrun : analyze { p with indirect }.code limits around start = (x, .ok r))
    (hbounded : r.outcome = .bounded) (hm : m.StartsAt start)
    (hsteps : Relation.ReflTransGen (SettledStep { p with indirect } limits.vectors) m n) :
    n.height ≤ r.depth := by
  obtain ⟨hexact, rfl⟩ | ⟨-, hcontra⟩ := analyze_cases hrun
  · have hexec : ∀ c, Configuration.Reachable { p with indirect }.code limits.vectors start c →
        ∃ t e, { p with indirect }.code.Executes c.state t e := by
      intro c hc
      obtain ⟨id, hid, hstate⟩ := (hexact.node_iff c.state).mpr ⟨c.height, c.frames, hc⟩
      rw [← hstate]
      exact Code.exists_executes (hexact.free id hid)
    have hp : ({ p with indirect } : Program).IsEncodable :=
      fun pc i => Assembly.isEncodable_assemble hasm pc i
    obtain ⟨c, hreach, hmatch⟩ := Matches.run hp hexec hm hsteps
    have hgreatest := (Exploration.fullReport_exact hexact).2 hbounded
    exact hmatch.height.trans (hgreatest.2 ⟨c.state, c.frames, hreach⟩)
  · exact absurd hbounded hcontra

/-- The processor with every register zero. -/
def zeroed (pc : Address) (height : Int) (frames : List Pending) : Processor :=
  ⟨.cleared, 0#8, 0#8, pc, height, frames⟩

theorem startsAt_zeroed : (zeroed 0#16 0 []).StartsAt .reset where
  machine := ⟨by decide, by decide⟩
  eimsk := by decide
  timsk := by decide
  pc := rfl
  height := rfl
  frames := rfl

/-- A program whose function takes off the stack what it pushes. -/
def balancedCall : Program :=
  { Program.ofInstructions [{ op := .RCALL, k := 2 }, { op := .PUSH }, { op := .BREAK }, { op := .PUSH },
      { op := .POP }, { op := .RET }] with labels := [("f", 6#16)] }

/-- A settled run through a function and back, and its bound. -/
theorem height_le_depth_of_balanced :
    ∃ x r n, Assembly.assemble "rcall f\npush r0\nbreak\nf: push r0\npop r0\nret" = .ok balancedCall ∧
      analyze balancedCall.code {} {} .reset = (x, .ok r) ∧ r.outcome = .bounded ∧
      (zeroed 0#16 0 []).StartsAt .reset ∧
      Relation.ReflTransGen (SettledStep balancedCall 4) (zeroed 0#16 0 []) n ∧
      n.height = 1 ∧ n.height ≤ r.depth := by
  have hasm : Assembly.assemble "rcall f\npush r0\nbreak\nf: push r0\npop r0\nret" =
      .ok balancedCall := by decide +kernel
  have hend : (Building.run balancedCall.code {} {} .reset).2 = .ok .complete := by decide +kernel
  have hlevel : ∀ a ∈ (Building.run balancedCall.code {} {} .reset).1.work.graph.edges,
      [0, 2, 3, 2, 0, 1].getD a.target 0 = [0, 2, 3, 2, 0, 1].getD a.source 0 + a.weight := by
    decide +kernel
  obtain ⟨x, r, hrun, hbounded, -⟩ :=
    analyze_of_level hend (fun id => [0, 2, 3, 2, 0, 1].getD id 0) hlevel
  have hsteps : Relation.ReflTransGen (SettledStep balancedCall 4) (zeroed 0#16 0 [])
      (zeroed 4#16 1 []) := by
    refine .head (b := zeroed 6#16 2 [⟨2#16, 0⟩]) ?_ ?_
    · exact ⟨.relativeCall (i := { op := .RCALL, k := 2 }) rfl rfl, by simp [Settles, zeroed]⟩
    refine .head (b := zeroed 8#16 3 [⟨2#16, 0⟩]) ?_ ?_
    · exact ⟨.push (i := { op := .PUSH }) rfl rfl, by simp [Settles, zeroed]⟩
    refine .head (b := zeroed 10#16 2 [⟨2#16, 0⟩]) ?_ ?_
    · exact ⟨.pop (i := { op := .POP }) 0#8 rfl rfl, by simp [Settles, zeroed]⟩
    refine .head (b := zeroed 2#16 0 []) ?_ ?_
    · exact ⟨.ret (i := { op := .RET }) (f := ⟨2#16, 0⟩) rfl rfl rfl, by simp [Settles, zeroed]⟩
    exact .single ⟨.push (i := { op := .PUSH }) rfl rfl, by simp [Settles, zeroed]⟩
  exact ⟨x, r, _, hasm, hrun, hbounded, startsAt_zeroed, hsteps, rfl,
    height_le_depth hasm [] hrun hbounded startsAt_zeroed hsteps⟩

/-- A program whose function leaves a byte on the stack. -/
def leakingCall : Program :=
  { Program.ofInstructions [{ op := .RCALL, k := 4 }, { op := .PUSH }, { op := .PUSH }, { op := .PUSH },
      { op := .BREAK }, { op := .PUSH }, { op := .RET }] with labels := [("f", 10#16)] }

/-- A run that leaves its frame unsettled has a stack above the reported depth. -/
theorem depth_lt_height_of_leak :
    ∃ x r n, Assembly.assemble "rcall f\npush r0\npush r0\npush r0\nbreak\nf: push r0\nret" =
        .ok leakingCall ∧ State.reset.Canonical ∧
      analyze leakingCall.code {} {} .reset = (x, .ok r) ∧ r.outcome = .bounded ∧
      (zeroed 0#16 0 []).StartsAt .reset ∧
      Relation.ReflTransGen (Step leakingCall 4) (zeroed 0#16 0 []) n ∧
      r.depth < n.height := by
  have hasm : Assembly.assemble "rcall f\npush r0\npush r0\npush r0\nbreak\nf: push r0\nret" =
      .ok leakingCall := by decide +kernel
  have hend : (Building.run leakingCall.code {} {} .reset).2 = .ok .complete := by decide +kernel
  have hlevel : ∀ a ∈ (Building.run leakingCall.code {} {} .reset).1.work.graph.edges,
      [0, 2, 3, 0, 1, 2, 3].getD a.target 0 = [0, 2, 3, 0, 1, 2, 3].getD a.source 0 + a.weight := by
    decide +kernel
  obtain ⟨x, r, hrun, hbounded, id, -, hdepth⟩ :=
    analyze_of_level hend (fun id => [0, 2, 3, 0, 1, 2, 3].getD id 0) hlevel
  have hrange : ∀ id, 0 ≤ ([0, 2, 3, 0, 1, 2, 3] : List Int).getD id 0 ∧
      ([0, 2, 3, 0, 1, 2, 3] : List Int).getD id 0 ≤ 3 := by
    intro id
    by_cases hid : id < 7
    · revert id
      decide
    · rw [List.getD_eq_default _ _ (by simpa using hid)]
      decide
  have hsteps : Relation.ReflTransGen (Step leakingCall 4) (zeroed 0#16 0 [])
      (zeroed 8#16 4 []) := by
    refine .head (b := zeroed 10#16 2 [⟨2#16, 0⟩]) ?_ ?_
    · exact .relativeCall (i := { op := .RCALL, k := 4 }) rfl rfl
    refine .head (b := zeroed 12#16 3 [⟨2#16, 0⟩]) ?_ ?_
    · exact .push (i := { op := .PUSH }) rfl rfl
    refine .head (b := zeroed 2#16 1 []) ?_ ?_
    · exact .ret (i := { op := .RET }) (f := ⟨2#16, 0⟩) rfl rfl rfl
    refine .head (b := zeroed 4#16 2 []) ?_ ?_
    · exact .push (i := { op := .PUSH }) rfl rfl
    refine .head (b := zeroed 6#16 3 []) ?_ ?_
    · exact .push (i := { op := .PUSH }) rfl rfl
    exact .single (.push (i := { op := .PUSH }) rfl rfl)
  refine ⟨x, r, _, hasm, ?_, hrun, hbounded, startsAt_zeroed, hsteps, ?_⟩
  · exact ⟨by decide, by decide, by decide, by decide⟩
  · have hid := hrange id
    have heden := hrange x.graph.eden
    show r.depth < 4
    omega

end Processor

end StackDepth
