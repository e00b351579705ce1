import StackDepth.Analysis.Build
import StackDepth.Graph.MaxPath
import StackDepth.Report.Basic

/-!
# From the state space to a report

A complete state space gives the heaviest path or a cycle that shows that there is none. A state space
that was left unfinished gives distributions, which show where it grew.
-/

namespace StackDepth

namespace Exploration

/-- The counters. -/
def stats (x : Exploration) : Stats :=
  { states := x.graph.stateCount, frontier := x.graph.frontierCount, explored := x.graph.exploredCount,
    edges := x.graph.edgeCount, pendingReturns := x.pendingReturns, pendingEdges := x.pendingEdges,
    returns := x.retCount, returnInterrupts := x.retiCount }

/-- The text and the size of what stands at an address, empty and none if nothing can be fetched. -/
def shown (code : Code) (pc : Address) : String × Option Nat :=
  match code.fetch pc with
  | .ok cell => (cell.disassemble?.getD "", cell.size?)
  | .error _ => ("", none)

/-- An edge as a step of a path, taken at a depth. -/
def stepOf (code : Code) (g : Graph) (depth : Int) (id : EdgeId) : Step :=
  let e := g.edge id
  let s := g.state e.source
  let (instruction, size) := shown code s.pc
  { depth, source := e.source, target := e.target, pc := s.pc, targetPc := g.pc e.target,
    kind := e.kind.name, weight := e.weight, instruction, state := s.render,
    isFallthrough := size.any fun n => e.weight == 0 && g.pc e.target == s.pc + BitVec.ofNat 16 n }

/-- Edges as steps, the first one taken at a depth. -/
def stepsOf (code : Code) (g : Graph) : Int → List EdgeId → List Step
  | _, [] => []
  | depth, e :: rest => stepOf code g depth e :: stepsOf code g (depth + (g.edge e).weight) rest

/-- The report of a complete state space. -/
def fullReport (x : Exploration) (code : Code) : Report :=
  let g := x.graph
  let stats := { x.stats with cyclicRegions := g.cyclicRegions.length }
  match g.maxPath with
  | .bounded depth path => { outcome := .bounded, depth, path := stepsOf code g 0 path, stats }
  | .unbounded approach cycle =>
      { outcome := .unbounded, path := stepsOf code g 0 approach,
        cycle := stepsOf code g (g.weightOf approach) cycle, stats }

/-- The report of an unfinished state space. -/
def partialReport (x : Exploration) (outcome : Outcome) : Report :=
  let ids := List.range x.graph.size
  { outcome, stats := x.stats,
    returnSetSizes := some (.ofSamples "return set size"
      (ids.map fun id => ((x.graph.node id).returns.size : Int))),
    statesPerPc := some (.ofSamples "states per pc" (ids.map fun id => ((x.graph.pc id).toNat : Int))) }

/-- The event that announces the result of a complete state space. -/
def announcement (r : Report) : Event :=
  match r.outcome with
  | .unbounded => .unboundedFound r.cycle.length
  | _ => .depthFound r.depth

/-- The report of a state space that was built to some end. An exhausted analysis drops its return sets
to free memory. -/
def conclude (x : Exploration) (code : Code) (how : Ending) : Exploration × Report :=
  let x := x.note (.built x.graph.size x.graph.edges.size)
  match how with
  | .complete =>
      let r := x.fullReport code
      (x.note (announcement r), r)
  | .stopped => (x, x.partialReport .stopped)
  | .exhausted => ({ x with graph := x.graph.deleteReturns }, x.partialReport .exhausted)

end Exploration

/-- Analyses code from a start state: the exploration at the end, and the report or an error. -/
def analyze (code : Code) (limits : Limits) (around : Surroundings) (s : State) :
    Exploration × Except RunError Report :=
  match Building.run code limits around s with
  | (b, .error error) => (b.work, .error error)
  | (b, .ok how) =>
      let (x, r) := b.work.conclude code how
      (x, .ok r)

end StackDepth
