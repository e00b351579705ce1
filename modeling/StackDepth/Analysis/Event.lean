import StackDepth.Graph.Edge
import StackDepth.State.Basic
import StackDepth.Instruction.Disassembly

/-!
# Events of an analysis

An analysis keeps a log of what it does. Every event has a level; which levels are shown is decided when
the log is printed, so that the level has no influence on the analysis.
-/

namespace StackDepth

/-- The importance of a message, the most important first. -/
inductive LogLevel where
  /-- The program cannot go on at all. -/
  | panic
  /-- The program ends. -/
  | fatal
  /-- Something failed. -/
  | error
  /-- Something needs attention. -/
  | warning
  /-- A result. -/
  | info
  /-- What the analysis works on. -/
  | debug
  /-- Every single step. -/
  | trace
deriving DecidableEq, Inhabited

namespace LogLevel

/-- All levels, the most important first. -/
def all : List LogLevel := [panic, fatal, error, warning, info, debug, trace]

/-- The name of a level. -/
def name : LogLevel → String
  | panic => "panic"
  | fatal => "fatal"
  | error => "error"
  | warning => "warning"
  | info => "info"
  | debug => "debug"
  | trace => "trace"

/-- How detailed a level is. -/
def rank (l : LogLevel) : Nat := l.ctorIdx

/-- A log at level `l` shows messages of level `m`. -/
def allows (l m : LogLevel) : Bool := m.rank ≤ l.rank

end LogLevel

/-- What is known of a state when an edge leads to it. -/
inductive Standing where
  /-- It has been explored. -/
  | explored
  /-- It waits on the frontier. -/
  | waiting
  /-- It is new. -/
  | fresh
deriving DecidableEq, Inhabited

/-- The letter of a standing. -/
def Standing.letter : Standing → String
  | explored => "E"
  | waiting => "F"
  | fresh => "N"

/-- What an analysis does. -/
inductive Event where
  /-- A state is explored. -/
  | exploring (id : StateId) (cell : Cell) (s : State)
  /-- A state was produced. -/
  | produced (standing : Standing) (id : StateId) (s : State)
  /-- An edge is new. -/
  | addingEdge (e : Edge)
  /-- A return state is propagated. -/
  | propagatingReturn (id : StateId)
  /-- A return set is handed over a new edge. -/
  | propagatingEdge (e : EdgeId) (kind : EdgeKind) (returns : Nat)
  /-- The analysis was cancelled while exploring. -/
  | stopped (explored : Nat)
  /-- A budget ran out. -/
  | outOfBudget (explored : Nat)
  /-- The analysis was cancelled while returns were waiting. -/
  | stoppedPropagating (returns edges : Nat)
  /-- The state space is built. -/
  | built (states edges : Nat)
  /-- The bound is known. -/
  | depthFound (bytes : Int)
  /-- There is no bound. -/
  | unboundedFound (cycle : Nat)
deriving DecidableEq, Inhabited

namespace Event

/-- The level of an event. -/
def level : Event → LogLevel
  | exploring .. | produced .. | addingEdge _ => .trace
  | propagatingReturn _ | propagatingEdge .. => .debug
  | stopped _ | outOfBudget _ | stoppedPropagating .. => .warning
  | built .. | depthFound _ | unboundedFound _ => .info

/-- The text of an event and its named values in the order of their names. A number outside the
catalogue has no text. -/
def text? : Event → Option (String × List (String × String))
  | exploring id cell s =>
      cell.disassemble?.map fun instruction =>
        ("exploring [" ++ Text.decimal id ++ "] " ++ Text.padRight 14 instruction ++ " " ++ s.render, [])
  | produced standing id s =>
      some ("        " ++ standing.letter ++ " ==> [" ++ Text.decimal id ++ "] " ++ s.render, [])
  | addingEdge e =>
      some ("adding edge [" ++ Text.decimal e.source ++ "] --(" ++ e.kind.name ++ "," ++
        Text.decimal e.weight ++ ")--> [" ++ Text.decimal e.target ++ "]", [])
  | propagatingReturn id => some ("propagating return state", [("state", Text.decimal id)])
  | propagatingEdge e kind returns =>
      some ("propagating returns over new edge",
        [("edge", Text.decimal e), ("kind", kind.name), ("returns", Text.decimal returns)])
  | stopped explored => some ("analysis stopped", [("explored", Text.decimal explored)])
  | outOfBudget explored => some ("analysis out of budget", [("explored", Text.decimal explored)])
  | stoppedPropagating returns edges =>
      some ("analysis stopped during propagation",
        [("edges", Text.decimal edges), ("returns", Text.decimal returns)])
  | built states edges =>
      some ("state space built", [("edges", Text.decimal edges), ("states", Text.decimal states)])
  | depthFound bytes => some ("maximum stack depth", [("bytes", Text.decimal bytes)])
  | unboundedFound cycle => some ("stack depth unbounded", [("cycle", Text.decimal cycle)])

/-- The line of an event: its level, its text and its named values. -/
def line? (e : Event) : Option String :=
  e.text?.map fun (message, values) =>
    e.level.name ++ ": " ++ message ++
      values.foldl (fun acc (name, value) => acc ++ " " ++ name ++ "=" ++ value) ""

end Event

end StackDepth
