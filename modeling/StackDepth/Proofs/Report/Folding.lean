import Mathlib
import StackDepth.Report.Text
import StackDepth.Proofs.Report.Witness
import StackDepth.Proofs.Text.Numeral

/-!
# Folding a path

A summary of a path shows a run of steps that only fall through as one line with their number. The steps
of the run are counted, and the line is due when the next step is shown. Here the lines are unfolded
again: every line stands for a step or for a run of so many steps, and the steps of all lines are the path.

* `Report.Unfolds`: the steps for which lines stand;
* `Report.Folds`: what the lines of a summary guarantee;
* `Report.unfolds_foldRest`: the steps that were counted are shown with those that follow;
* `Report.fold_notMem_text_step`, `Report.fold_notMem_pathText`: no line of a step reads like one of folded
  steps;
* `Report.pathText_folds`: the summary of a path loses no step.
-/

namespace StackDepth

namespace Report

/-! ### Lines and steps -/

/-- The step of a line. -/
def TraceLine.step? : TraceLine → Option Step
  | .step s => some s
  | .fold _ => none

/-- The number of steps that are folded into a line. -/
def TraceLine.folded : TraceLine → Nat
  | .step _ => 0
  | .fold n => n

/-- The steps that are shown. -/
def shown (lines : List TraceLine) : List Step := lines.filterMap TraceLine.step?

@[simp]
theorem shown_step (s : Step) (lines : List TraceLine) : shown (.step s :: lines) = s :: shown lines := rfl

@[simp]
theorem shown_fold (n : Nat) (lines : List TraceLine) : shown (.fold n :: lines) = shown lines := rfl

/-- Lines in the order of a path, and the steps for which they stand. A line of folded steps stands for
so many steps that fall through, and for at least one. -/
inductive Unfolds : List TraceLine → List Step → Prop where
  /-- No line is left. -/
  | nil : Unfolds [] []
  /-- A line stands for its step. -/
  | step {lines : List TraceLine} {steps : List Step} (s : Step) (h : Unfolds lines steps) :
      Unfolds (.step s :: lines) (s :: steps)
  /-- A line stands for a run of steps. -/
  | fold {lines : List TraceLine} {steps run : List Step} (hne : run ≠ [])
      (hrun : ∀ s ∈ run, s.isFallthrough = true) (h : Unfolds lines steps) :
      Unfolds (.fold run.length :: lines) (run ++ steps)

/-- One of two lines shows a step. -/
def Apart (a b : TraceLine) : Prop := a.step?.isSome ∨ b.step?.isSome

/-- What the lines of a summary guarantee. -/
structure Folds (lines : List TraceLine) (steps : List Step) : Prop where
  /-- The lines stand for the steps in their order. -/
  unfolds : Unfolds lines steps
  /-- Every step is shown or folded, and only once. -/
  count : (shown lines).length + (lines.map TraceLine.folded).sum = steps.length
  /-- The first step is shown first. -/
  first : lines.head? = steps.head?.map .step
  /-- The last step is shown last. -/
  last : lines.getLast? = steps.getLast?.map .step
  /-- All steps that do not fall through are shown. -/
  kept : (shown lines).filter (!·.isFallthrough) = steps.filter (!·.isFallthrough)
  /-- No line of folded steps is empty. -/
  positive : ∀ n, .fold n ∈ lines → 1 ≤ n
  /-- Two lines of folded steps do not follow each other. -/
  apart : lines.IsChain Apart

namespace Unfolds

variable {lines : List TraceLine} {steps : List Step}

theorem count (h : Unfolds lines steps) :
    (shown lines).length + (lines.map TraceLine.folded).sum = steps.length := by
  induction h with
  | nil => rfl
  | step s _ ih =>
    rw [shown_step, List.map_cons, List.sum_cons, List.length_cons, List.length_cons, TraceLine.folded]
    omega
  | fold _ _ _ ih =>
    rw [shown_fold, List.map_cons, List.sum_cons, List.length_append, TraceLine.folded]
    omega

theorem kept (h : Unfolds lines steps) :
    (shown lines).filter (!·.isFallthrough) = steps.filter (!·.isFallthrough) := by
  induction h with
  | nil => rfl
  | step s _ ih => rw [shown_step, List.filter_cons, List.filter_cons, ih]
  | @fold _ _ run _ hrun _ ih =>
    have hnone : run.filter (!·.isFallthrough) = [] :=
      List.filter_eq_nil_iff.mpr fun s hs => by simp [hrun s hs]
    rw [shown_fold, List.filter_append, hnone, List.nil_append, ih]

theorem positive (h : Unfolds lines steps) {n : Nat} (hn : .fold n ∈ lines) : 1 ≤ n := by
  induction h with
  | nil => exact absurd hn List.not_mem_nil
  | step s _ ih => exact ih ((List.mem_cons.mp hn).resolve_left (by simp))
  | fold hne _ _ ih =>
    rcases List.mem_cons.mp hn with heq | hrest
    · rw [TraceLine.fold.inj heq]
      exact List.length_pos_iff.mpr hne
    · exact ih hrest

/-- The line of the steps that were counted. -/
theorem foldLine_append (h : Unfolds lines steps) {pending : List Step}
    (hpending : ∀ s ∈ pending, s.isFallthrough = true) :
    Unfolds (foldLine pending.length ++ lines) (pending ++ steps) := by
  cases pending with
  | nil => exact h
  | cons s rest =>
    rw [foldLine, if_neg (by simp)]
    exact .fold (List.cons_ne_nil s rest) hpending h

end Unfolds

/-! ### Folding -/

theorem foldRest_cons (skipped : Nat) (s : Step) {rest : List Step} (hne : rest ≠ []) :
    foldRest skipped (s :: rest) =
      if s.isFallthrough then foldRest (skipped + 1) rest
      else foldLine skipped ++ .step s :: foldRest 0 rest := by
  rw [foldRest]
  exact hne

/-- The steps that were counted are shown with those that follow. -/
theorem unfolds_foldRest (pending steps : List Step)
    (hpending : ∀ s ∈ pending, s.isFallthrough = true) :
    Unfolds (foldRest pending.length steps) (pending ++ steps) := by
  generalize hskipped : pending.length = skipped
  induction skipped, steps using foldRest.induct generalizing pending with
  | case1 skipped =>
    subst hskipped
    simpa [foldRest] using Unfolds.nil.foldLine_append hpending
  | case2 skipped s =>
    subst hskipped
    exact (Unfolds.nil.step s).foldLine_append hpending
  | case3 skipped s rest hne hfall ih =>
    -- The step is counted: it joins those that are due.
    have hlonger : ∀ t ∈ pending ++ [s], t.isFallthrough = true := by
      intro t ht
      rcases List.mem_append.mp ht with hold | hlast
      · exact hpending t hold
      · rw [List.mem_singleton.mp hlast, hfall]
    have hnext := ih (pending ++ [s]) hlonger (by simp [hskipped])
    rw [List.append_assoc, List.singleton_append] at hnext
    rwa [foldRest_cons _ s hne, if_pos hfall]
  | case4 skipped s rest hne hshown ih =>
    subst hskipped
    have hnext := ih [] (by simp) rfl
    rw [foldRest_cons _ s hne, if_neg hshown]
    exact (hnext.step s).foldLine_append hpending

theorem getLast?_step_cons (s : Step) {lines : List TraceLine} {steps : List Step}
    (h : lines.getLast? = steps.getLast?.map .step) :
    (TraceLine.step s :: lines).getLast? = (s :: steps).getLast?.map .step := by
  rw [List.getLast?_cons, h, List.getLast?_cons]
  cases steps.getLast? <;> rfl

/-- The last step is shown even if it falls through. -/
theorem getLast?_foldRest (skipped : Nat) {steps : List Step} (hne : steps ≠ []) :
    (foldRest skipped steps).getLast? = steps.getLast?.map .step := by
  induction skipped, steps using foldRest.induct with
  | case1 skipped => exact absurd rfl hne
  | case2 skipped s => exact List.getLast?_concat
  | case3 skipped s rest hrest hfall ih =>
    obtain ⟨t, rest, rfl⟩ := List.exists_cons_of_ne_nil hrest
    rw [foldRest_cons _ s hrest, if_pos hfall, ih hrest, List.getLast?_cons_cons]
  | case4 skipped s rest hrest hshown ih =>
    rw [foldRest_cons _ s hrest, if_neg hshown, List.getLast?_append, getLast?_step_cons s (ih hrest),
      List.getLast?_cons]
    rfl

theorem apart_step_cons (s : Step) {lines : List TraceLine} (h : lines.IsChain Apart) :
    (TraceLine.step s :: lines).IsChain Apart :=
  List.isChain_cons.mpr ⟨fun _ _ => .inl rfl, h⟩

/-- A step separates the steps that were counted from what follows. -/
theorem apart_foldLine_append (skipped : Nat) (s : Step) {lines : List TraceLine}
    (h : lines.IsChain Apart) : (foldLine skipped ++ .step s :: lines).IsChain Apart := by
  rw [foldLine]
  split
  · exact apart_step_cons s h
  · refine List.isChain_cons.mpr ⟨fun b hb => .inr ?_, apart_step_cons s h⟩
    obtain rfl : TraceLine.step s = b := Option.some.inj hb
    rfl

theorem apart_foldRest (skipped : Nat) (steps : List Step) : (foldRest skipped steps).IsChain Apart := by
  induction skipped, steps using foldRest.induct with
  | case1 skipped =>
    rw [foldRest, foldLine]
    split
    · exact .nil
    · exact .singleton _
  | case2 skipped s => exact apart_foldLine_append skipped s .nil
  | case3 skipped s rest hrest hfall ih => rwa [foldRest_cons _ s hrest, if_pos hfall]
  | case4 skipped s rest hrest hshown ih =>
    rw [foldRest_cons _ s hrest, if_neg hshown]
    exact apart_foldLine_append skipped s ih

theorem traceLines_unfolds (steps : List Step) : Unfolds (traceLines true steps) steps := by
  cases steps with
  | nil => exact .nil
  | cons s rest => exact (unfolds_foldRest [] rest (by simp)).step s

/-- Folding a path loses no step. -/
theorem traceLines_folds (steps : List Step) : Folds (traceLines true steps) steps where
  unfolds := traceLines_unfolds steps
  count := (traceLines_unfolds steps).count
  first := by cases steps <;> rfl
  last := by
    cases steps with
    | nil => rfl
    | cons s rest =>
      refine getLast?_step_cons s ?_
      cases rest with
      | nil => rfl
      | cons t rest => exact getLast?_foldRest 0 (List.cons_ne_nil t rest)
  kept := (traceLines_unfolds steps).kept
  positive n := (traceLines_unfolds steps).positive
  apart := by
    cases steps with
    | nil => exact .nil
    | cons s rest => exact apart_step_cons s (apart_foldRest 0 rest)

/-- Without a summary every step has its line. -/
theorem traceLines_false (steps : List Step) : traceLines false steps = steps.map .step := by
  cases steps <;> rfl

/-! ### What the lines read -/

theorem dot_notMem_decimal (k : Int) : '.' ∉ (Text.decimal k).toList := by
  have hdigits : ∀ n, '.' ∉ Nat.toDigits 10 n := fun n h =>
    absurd (Nat.isDigit_of_mem_toDigits (by decide) (by decide) h) (by decide)
  cases k with
  | ofNat m =>
    rw [Text.decimal, String.toList_ofList]
    exact hdigits m
  | negSucc m =>
    rw [Text.decimal, String.toList_append, List.mem_append]
    refine not_or.mpr ⟨by decide, ?_⟩
    rw [String.toList_ofList]
    exact hdigits (m + 1)

/-- The column of a number does not begin with a dot. -/
theorem exists_padLeft_decimal (width : Nat) (k : Int) :
    ∃ c cs, (Text.padLeft width (Text.decimal k)).toList = c :: cs ∧ c ≠ '.' := by
  rw [Text.padLeft, String.toList_append, String.toList_ofList]
  generalize width - (Text.decimal k).length = blanks
  cases blanks with
  | zero =>
    obtain ⟨c, cs, hdecimal⟩ := List.exists_cons_of_ne_nil (Numeral.isWord_decimal k).1
    refine ⟨c, cs, hdecimal, ?_⟩
    rintro rfl
    exact dot_notMem_decimal k (hdecimal ▸ List.mem_cons_self)
  | succ n => exact ⟨' ', _, rfl, by decide⟩

/-- The third character tells a line of folded steps from the lines of a step. -/
theorem fold_notMem_text_step (showStates : Bool) (s : Step) (n : Nat) :
    "  ... " ++ Text.decimal n ++ " instructions" ∉ TraceLine.text showStates (.step s) := by
  intro hmem
  have hthird : ("  ... " ++ Text.decimal n ++ " instructions").toList[2]? = some '.' := by
    simp [String.toList_append]
  rcases List.mem_cons.mp hmem with hline | hstate
  · obtain ⟨c, cs, hcolumn, hdot⟩ := exists_padLeft_decimal 4 s.depth
    rw [hline] at hthird
    simp only [String.toList_append, hcolumn] at hthird
    exact hdot (by simpa using hthird)
  · split at hstate
    · rw [List.mem_singleton.mp hstate] at hthird
      simp [String.toList_append] at hthird
    · exact absurd hstate List.not_mem_nil

/-- Without a summary no line reads like a line of folded steps. -/
theorem fold_notMem_pathText {v : View} (hall : v.summary = false) (steps : List Step) (n : Nat) :
    "  ... " ++ Text.decimal n ++ " instructions" ∉ pathText v steps := by
  rw [pathText, hall, traceLines_false]
  simp only [List.mem_flatMap, List.mem_map, not_exists, not_and]
  rintro _ ⟨s, -, rfl⟩
  exact fold_notMem_text_step v.showStates s n

end Report

/-! ### Paths of reports -/

namespace Exploration

theorem weight_of_isFallthrough {code : Code} {g : Graph} {depth : Int} {es : List EdgeId} {s : Step}
    (hs : s ∈ stepsOf code g depth es) (h : s.isFallthrough = true) : s.weight = 0 := by
  induction es generalizing depth with
  | nil => exact absurd hs List.not_mem_nil
  | cons e es ih =>
    rcases List.mem_cons.mp hs with rfl | hrest
    · simp only [stepOf, Option.any_eq_true, Bool.and_eq_true, beq_iff_eq] at h
      obtain ⟨-, -, hweight, -⟩ := h
      exact hweight
    · exact ih hrest

/-- The path and the cycle of a report are edges of the graph. -/
theorem mem_fullReport {x : Exploration} {code : Code} {s : Step}
    (hs : s ∈ (x.fullReport code).path ++ (x.fullReport code).cycle) :
    ∃ depth es, s ∈ stepsOf code x.graph depth es := by
  rw [fullReport] at hs
  dsimp only at hs
  split at hs
  · rw [List.append_nil] at hs
    exact ⟨_, _, hs⟩
  · rcases List.mem_append.mp hs with hpath | hcycle
    · exact ⟨_, _, hpath⟩
    · exact ⟨_, _, hcycle⟩

end Exploration

/-- A step of a report leaves the stack alone if it falls through. -/
theorem analyze_weight_of_isFallthrough {code : Code} {limits : Limits} {around : Surroundings}
    {start : State} {x : Exploration} {r : Report} (hrun : analyze code limits around start = (x, .ok r))
    {s : Step} (hs : s ∈ r.path ++ r.cycle) (h : s.isFallthrough = true) : s.weight = 0 := by
  unfold analyze at hrun
  split at hrun
  · simp at hrun
  · next b how _ =>
    simp only [Exploration.conclude, Prod.mk.injEq, Except.ok.injEq] at hrun
    cases how with
    | complete =>
      obtain ⟨-, rfl⟩ := hrun
      obtain ⟨depth, es, hmem⟩ := Exploration.mem_fullReport hs
      exact Exploration.weight_of_isFallthrough hmem h
    | stopped =>
      obtain ⟨-, rfl⟩ := hrun
      exact absurd hs List.not_mem_nil
    | exhausted =>
      obtain ⟨-, rfl⟩ := hrun
      exact absurd hs List.not_mem_nil

/-- The text of a path is one of lines. In a summary they stand for all steps of the path in their order,
each of which is shown or folded once: the first one, the last one and all that do not fall through are
shown, and what is folded into a line are one or more steps that fall through, with no other such line
next to it. Otherwise every step is shown. A step is shown with its depth, its two states with their program
counters, its instruction, its kind and its weight, and below them the tracked values of the state if they
are asked for. In a report of an analysis a step that falls through leaves the stack alone. -/
theorem Report.pathText_folds (v : View) (steps : List Step) :
    ∃ lines, pathText v steps = lines.flatMap (TraceLine.text v.showStates) ∧
      (∀ n, TraceLine.text v.showStates (.fold n) = ["  ... " ++ Text.decimal n ++ " instructions"]) ∧
      (∀ s, TraceLine.text v.showStates (.step s) =
        ("  " ++ Text.padLeft 4 (Text.decimal s.depth) ++ "  [" ++ Text.decimal s.source ++ "] " ++
          Text.hex4 s.pc.toNat ++ "  " ++ Text.padRight 18 s.instruction ++ " --(" ++ s.kind ++ "," ++
          Text.signed s.weight ++ ")--> [" ++ Text.decimal s.target ++ "] " ++
          Text.hex4 s.targetPc.toNat) ::
        if v.showStates = true ∧ s.state ≠ "" then ["        " ++ s.state] else []) ∧
      (v.summary = true → Folds lines steps) ∧ (v.summary = false → lines = steps.map .step) ∧
      ∀ code limits around start x r, analyze code limits around start = (x, .ok r) →
        ∀ s ∈ r.path ++ r.cycle, s.isFallthrough = true → s.weight = 0 := by
  refine ⟨traceLines v.summary steps, rfl, fun n => rfl, fun s => ?_, fun hsummary => ?_, fun hall => ?_,
    fun code limits around start x r hrun s hs hfall => analyze_weight_of_isFallthrough hrun hs hfall⟩
  · rw [TraceLine.text, stepText]
    simp
  · rw [hsummary]
    exact traceLines_folds steps
  · rw [hall]
    exact traceLines_false steps

/-- A program that falls through three times before it pushes a byte. -/
def slide : Program :=
  .ofInstructions
    [{ op := .NOP }, { op := .NOP }, { op := .NOP }, { op := .PUSH }, { op := .RJMP, k := -1 }]

/-- The first step is shown although it falls through, and the other two are folded. -/
theorem Report.pathText_folds_of_slide :
    ∃ x r lines, analyze slide.code {} {} .reset = (x, .ok r) ∧
      pathText { summary := true } r.path = lines.flatMap (TraceLine.text false) ∧ Folds lines r.path ∧
      (pathText { summary := true } r.path)[1]? = some "  ... 2 instructions" ∧
      ∀ s ∈ r.path, s.isFallthrough = true → s.weight = 0 := by
  have hfolded : ((analyze slide.code {} {} .reset).2.toOption.bind fun r =>
      (pathText { summary := true } r.path)[1]?) = some "  ... 2 instructions" := by decide +kernel
  generalize hrun : analyze slide.code {} {} .reset = p at hfolded
  obtain ⟨x, result⟩ := p
  cases result with
  | error error => simp [Except.toOption] at hfolded
  | ok r =>
    obtain ⟨lines, htext, -, -, hfolds, -, hweight⟩ := pathText_folds { summary := true } r.path
    exact ⟨x, r, lines, rfl, htext, hfolds rfl, hfolded,
      fun s hs => hweight _ _ _ _ x r hrun s (List.mem_append_left _ hs)⟩

end StackDepth
