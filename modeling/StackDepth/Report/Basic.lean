import StackDepth.Report.Distribution
import StackDepth.Text.Pad

/-!
# Reports

The result of an analysis: how it ended, the bound with a path that reaches it or a cycle that shows
that there is no bound, and counters. An analysis that did not finish has distributions instead of a
path. Reports are also read from files, so that every number is a signed word of 64 bits.
-/

namespace StackDepth

/-- How an analysis ended. -/
inductive Outcome where
  /-- Every path uses a bounded stack. -/
  | bounded
  /-- A reachable cycle changes the depth of the stack. -/
  | unbounded
  /-- The budget of states or of memory ran out. -/
  | exhausted
  /-- The analysis was cancelled. -/
  | stopped
deriving DecidableEq, Inhabited

namespace Outcome

/-- All outcomes in the order of their numbers. -/
def all : List Outcome := [bounded, unbounded, exhausted, stopped]

/-- The name of an outcome. -/
def name : Outcome → String
  | bounded => "bounded"
  | unbounded => "unbounded"
  | exhausted => "exhausted"
  | stopped => "stopped"

/-- The outcome with a name. -/
def ofName? (s : String) : Option Outcome := all.find? (·.name == s)

/-- The name of the outcome with a number; numbers beyond the last are shown as such. -/
def nameOf (code : Nat) : String :=
  match all[code]? with
  | some o => o.name
  | none => "outcome(" ++ Text.decimal code ++ ")"

end Outcome

/-- Counters of an analysis. -/
@[ext]
structure Stats where
  /-- Interned states. -/
  states : Int := 0
  /-- States on the frontier. -/
  frontier : Int := 0
  /-- Explored states. -/
  explored : Int := 0
  /-- Edges. -/
  edges : Int := 0
  /-- Return states that wait for propagation. -/
  pendingReturns : Int := 0
  /-- Edges that wait for propagation. -/
  pendingEdges : Int := 0
  /-- States that end in a return. -/
  returns : Int := 0
  /-- States that end in a return from an interrupt. -/
  returnInterrupts : Int := 0
  /-- Components that contain a cycle. -/
  cyclicRegions : Int := 0
deriving DecidableEq, Inhabited

/-- One edge of a path. -/
@[ext]
structure Step where
  /-- The depth of the stack before the edge is taken. -/
  depth : Int := 0
  /-- The state it leaves. -/
  source : Int := 0
  /-- The state it enters. -/
  target : Int := 0
  /-- The program counter before. -/
  pc : Address := 0#16
  /-- The program counter after. -/
  targetPc : Address := 0#16
  /-- The name of its kind. -/
  kind : String := ""
  /-- The bytes pushed on it. -/
  weight : Int := 0
  /-- The instruction that is executed. -/
  instruction : String := ""
  /-- The state before, as text. -/
  state : String := ""
  /-- The stack stays as it is and the next instruction follows. -/
  isFallthrough : Bool := false
deriving DecidableEq, Inhabited

/-- The result of an analysis. -/
@[ext]
structure Report where
  /-- The name of the program. -/
  program : String := ""
  /-- How the analysis ended. -/
  outcome : Outcome := .bounded
  /-- The bound in bytes. -/
  depth : Int := 0
  /-- A path that reaches the bound, or the path to the cycle. -/
  path : List Step := []
  /-- A closed path on which the depth changes. -/
  cycle : List Step := []
  /-- The counters. -/
  stats : Stats := {}
  /-- The sizes of the return sets of an unfinished analysis. -/
  returnSetSizes : Option Distribution := none
  /-- The program counters of the states of an unfinished analysis. -/
  statesPerPc : Option Distribution := none
  /-- The time taken to build the state space, in nanoseconds. -/
  buildTime : Int := 0
  /-- The time taken to find the path, in nanoseconds. -/
  traverseTime : Int := 0
deriving DecidableEq, Inhabited

/-- The bytes that one round of the cycle adds. -/
def Report.cycleWeight (r : Report) : Int := wrap64 (r.cycle.foldr (fun s w => s.weight + w) 0)

end StackDepth
