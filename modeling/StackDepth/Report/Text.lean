import StackDepth.Duration
import StackDepth.Report.Basic
import StackDepth.Text.Grouped
import StackDepth.Text.Hex
import StackDepth.Text.Split

/-!
# Reports as text

A report is shown as a few lines of counters, the result, and on demand the path that leads to it. A
summary folds runs of steps that only fall through into one line each; the first and the last step are
never folded. An unfinished analysis shows its distributions instead.
-/

namespace StackDepth

namespace Report

/-- What is shown of a report. -/
structure View where
  /-- Show the path. -/
  showPath : Bool := false
  /-- Fold steps that only fall through. -/
  summary : Bool := false
  /-- Show the state before each step. -/
  showStates : Bool := false
deriving DecidableEq, Inhabited

/-! ### Steps -/

/-- A line of a path. -/
inductive TraceLine where
  /-- A step. -/
  | step (s : Step)
  /-- So many steps are folded. -/
  | fold (n : Nat)
deriving DecidableEq, Inhabited

/-- The line of folded steps, if there are any. -/
def foldLine (n : Nat) : List TraceLine := if n = 0 then [] else [.fold n]

/-- Folds the steps behind the first one; `skipped` were folded right before. -/
def foldRest : Nat → List Step → List TraceLine
  | skipped, [] => foldLine skipped
  | skipped, [s] => foldLine skipped ++ [.step s]
  | skipped, s :: rest =>
      if s.isFallthrough then foldRest (skipped + 1) rest
      else foldLine skipped ++ .step s :: foldRest 0 rest

/-- The lines of a path. -/
def traceLines (summary : Bool) : List Step → List TraceLine
  | [] => []
  | s :: rest => if summary then .step s :: foldRest 0 rest else .step s :: rest.map .step

/-- The lines of a step. -/
def stepText (showStates : Bool) (s : Step) : List String :=
  ("  " ++ Text.padLeft 4 (Text.decimal s.depth) ++ "  [" ++ Text.decimal s.source ++ "] " ++
    Text.hex4 s.pc.toNat ++ "  " ++ Text.padRight 18 s.instruction ++ " --(" ++ s.kind ++ "," ++
    Text.signed s.weight ++ ")--> [" ++ Text.decimal s.target ++ "] " ++ Text.hex4 s.targetPc.toNat) ::
  if showStates && !s.state.isEmpty then ["        " ++ s.state] else []

/-- The text of a line of a path. -/
def TraceLine.text (showStates : Bool) : TraceLine → List String
  | .step s => stepText showStates s
  | .fold n => ["  ... " ++ Text.decimal n ++ " instructions"]

/-- The text of a path. -/
def pathText (v : View) (steps : List Step) : List String :=
  (traceLines v.summary steps).flatMap (TraceLine.text v.showStates)

/-! ### Counters and distributions -/

/-- The lines of the counters; times are shown if one of them was measured. -/
def statsText (r : Report) : List String :=
  let s := r.stats
  let column (n : Int) : String := Text.padRight 14 (Text.grouped n)
  let time (d : Int) : String := Duration.render (Duration.round d Duration.microsecond)
  ["  States:   " ++ column s.states ++ " Edges:   " ++ column s.edges ++ " Explored: " ++
      Text.grouped s.explored,
    "  Returns:  " ++ column s.returns ++ " RETI:    " ++ column s.returnInterrupts ++
      " Cyclic regions: " ++ Text.decimal s.cyclicRegions] ++
    if 0 < r.buildTime ∨ 0 < r.traverseTime then
      ["  Build:    " ++ Text.padRight 14 (time r.buildTime) ++ " Path:    " ++ time r.traverseTime]
    else []

/-- How many of the most frequent addresses are shown. -/
def topCount : Nat := 10

/-- The first line of a distribution. -/
def distributionHead (d : Distribution) : String :=
  d.name ++ ": " ++ Text.grouped d.count ++ " samples, min " ++ Text.decimal d.least ++ ", max " ++
    Text.decimal d.greatest ++ ", mean " ++ d.meanText 2

/-- The lines of a distribution of numbers. -/
def numbersText (d : Distribution) : List String :=
  d.buckets.map fun (v, n) => "  " ++ Text.padLeft 6 (Text.decimal v) ++ "  " ++ Text.grouped n

/-- The lines of a distribution of addresses, the most frequent first. -/
def addressesText (d : Distribution) : List String :=
  ((d.buckets.mergeSort fun a b => b.2 ≤ a.2).take topCount).map fun (v, n) =>
    "  " ++ Text.signedHex4 v ++ "  " ++ Text.grouped n

/-- A distribution behind an empty line; nothing if it is missing or empty. -/
def distributionText (body : Distribution → List String) : Option Distribution → List String
  | none => []
  | some d => if d.count = 0 then [] else "" :: distributionHead d :: body d

/-! ### The whole report -/

/-- The lines of the result. -/
def resultText (v : View) (r : Report) : List String :=
  let edges (n : Nat) : String := "(" ++ Text.decimal n ++ " edges):"
  match r.outcome with
  | .bounded =>
      ("Maximum stack depth: " ++ Text.decimal r.depth ++ " bytes") ::
        if v.showPath && !r.path.isEmpty then
          ["", "Path " ++ edges r.path.length] ++ pathText v r.path
        else []
  | .unbounded =>
      ("Stack depth: UNBOUNDED (cycle of " ++ Text.decimal r.cycle.length ++ " edges, " ++
        Text.signed r.cycleWeight ++ " bytes per iteration)") ::
        if v.showPath then
          (if r.path.isEmpty then []
            else ["", "Path to cycle " ++ edges r.path.length] ++ pathText v r.path) ++
          ["", "Cycle:"] ++ pathText v r.cycle
        else []
  | _ =>
      ("Analysis " ++ r.outcome.name ++ ": no bound computed") ::
        (distributionText numbersText r.returnSetSizes ++ distributionText addressesText r.statesPerPc)

/-- The text of a report. -/
def render (v : View) (r : Report) : String :=
  Text.unlines ((if r.program.isEmpty then [] else ["Stack analysis of " ++ r.program]) ++
    statsText r ++ [""] ++ resultText v r)

end Report

namespace Stats

/-- Columns of counters: four wide ones and four narrow ones. -/
def columns (cells : List String) : String :=
  Text.joinWith " " (cells.zipIdx.map fun (c, i) => Text.padLeft (if i < 4 then 12 else 10) c)

/-- The titles of the columns. -/
def header : String :=
  columns ["states", "frontier", "explored", "edges", "p.rets", "p.edges", "rets", "retis"]

/-- The counters in columns. -/
def line (s : Stats) : String :=
  columns ([s.states, s.frontier, s.explored, s.edges, s.pendingReturns, s.pendingEdges, s.returns,
    s.returnInterrupts].map Text.grouped)

end Stats

end StackDepth
