import StackDepth.Analysis.Code
import StackDepth.Analysis.Event
import StackDepth.Graph.Basic
import StackDepth.State.Interrupt
import StackDepth.Transfer.Step

/-!
# Forward exploration

Exploring a state adds an edge for every interrupt that may fire and then the edges of its instruction.
A call leads to the callee only: it never continues behind the call, since the states in which the
caller resumes are found later, from the return states of the callee. Callers are told apart by their
whole state, so that two callers of one function get return edges of their own.

New states go on the frontier. A new edge to a state that is already explored is queued, so that the
return set of its target reaches its source.
-/

namespace StackDepth

/-- Why an analysis cannot go on. -/
inductive RunError where
  /-- There is no instruction at the program counter of a state. -/
  | fetch (id : StateId) (cause : FetchError)
  /-- The instruction of a state cannot be executed. -/
  | step (id : StateId) (cause : StepError)
  /-- An indirect call has no annotation. -/
  | callTargets (pc : Address)
  /-- An indirect jump has no annotation. -/
  | jumpTargets (pc : Address)
  /-- The instruction behind a call cannot be found. -/
  | resume (cause : FetchError)
  /-- A state is explored while it waits on the frontier. -/
  | frontier (cause : StillOnFrontier)
deriving DecidableEq, Inhabited

/-- The text of an error. -/
def RunError.message : RunError → String
  | .fetch id cause => "state " ++ Text.decimal id ++ ": " ++ cause.message
  | .step id cause => "state " ++ Text.decimal id ++ ": " ++ cause.message
  | .callTargets pc => "no indirect targets for indirect call or jump: call at " ++ Text.hex4 pc.toNat
  | .jumpTargets pc => "no indirect targets for indirect call or jump: jump at " ++ Text.hex4 pc.toNat
  | .resume cause => cause.message
  | .frontier cause => cause.message

/-- The graph built so far and the work that waits. -/
structure Exploration where
  /-- The graph. -/
  graph : Graph
  /-- Return states that wait for propagation, the latest first. -/
  newReturns : List StateId := []
  /-- Edges into explored states that wait for propagation, the latest first. -/
  newEdges : List EdgeId := []
  /-- The number of return states that wait. -/
  pendingReturns : Nat := 0
  /-- The number of edges that wait. -/
  pendingEdges : Nat := 0
  /-- The number of states that end in a return. -/
  retCount : Nat := 0
  /-- The number of states that end in a return from an interrupt. -/
  retiCount : Nat := 0
  /-- The events so far, the latest first. -/
  log : List Event := []
deriving Inhabited

namespace Exploration

/-- The exploration that has a start state only. -/
def start (s : State) : Exploration := { graph := .start s }

/-- Adds an event to the log. -/
def note (x : Exploration) (e : Event) : Exploration := { x with log := e :: x.log }

/-- What is known of a state. -/
def standing (g : Graph) (id : StateId) : Standing :=
  if (g.node id).explored then .explored else if (g.node id).onFrontier then .waiting else .fresh

/-- Queues an edge into an explored state. -/
def queueEdge (x : Exploration) (e : EdgeId) : Exploration :=
  { x with newEdges := e :: x.newEdges, pendingEdges := x.pendingEdges + 1 }

/-- Queues the new edge if its target is explored, and puts the target on the frontier otherwise. -/
def schedule (x : Exploration) (e : EdgeId) (t : StateId) : Exploration :=
  if (x.graph.node t).explored then x.queueEdge e else { x with graph := x.graph.pushFrontier t }

/-- Interns a state and joins it to `src`. -/
def addEdge (x : Exploration) (src : StateId) (kind : EdgeKind) (s : State) : Exploration :=
  let (g, t) := x.graph.intern s
  let x := { x with graph := g }.note (.produced (standing g t) t s)
  match x.graph.addEdge src t kind with
  | (g, .added e) => ({ x with graph := g }.note (.addingEdge ⟨src, t, kind⟩)).schedule e t
  | (g, _) => { x with graph := g }

/-- The first state of the handler of an interrupt: interrupts are disabled. -/
def handlerState (vectorSize : Int) (s : State) (num : Nat) : State :=
  { s.setFlag Flag.I .no with pc := vectorAddress num vectorSize }

/-- Adds the edges of all interrupts that may fire in a state. -/
def interrupts (x : Exploration) (vectorSize : Int) (id : StateId) (s : State) : Exploration :=
  s.interrupts.foldl (fun x num => x.addEdge id .interrupt (handlerState vectorSize s num)) x

/-- Adds an edge of a kind to the state at every target. -/
def addTargets (x : Exploration) (id : StateId) (kind : EdgeKind) (s : State)
    (targets : List Address) : Exploration :=
  targets.foldl (fun x t => x.addEdge id kind { s with pc := t }) x

/-- Marks a return state and queues it. -/
def markReturn (x : Exploration) (id : StateId) (kind : StateKind) : Exploration :=
  { x with
    graph := x.graph.setKind id kind
    newReturns := id :: x.newReturns
    pendingReturns := x.pendingReturns + 1
    retCount := if kind = .reti then x.retCount else x.retCount + 1
    retiCount := if kind = .reti then x.retiCount + 1 else x.retiCount }

/-- Adds what follows from the effect of the instruction of a state; `s` is the state it left. -/
def apply (x : Exploration) (code : Code) (id : StateId) (s : State) :
    Effect → Exploration × Option RunError
  | .next taken =>
      ((taken.toList ++ [s]).foldl (fun x t => x.addEdge id .normal t) x, none)
  | .push => (x.addEdge id .push s, none)
  | .pop => (x.addEdge id .pop s, none)
  | .halt => (x, none)
  | .call target => (x.addEdge id .call { s with pc := target }, none)
  | .indirectCall =>
      match code.targets? s.pc with
      | some targets => (x.addTargets id .call s targets, none)
      | none => (x, some (.callTargets s.pc))
  | .indirectJump =>
      match code.targets? s.pc with
      | some targets => (x.addTargets id .normal s targets, none)
      | none => (x, some (.jumpTargets s.pc))
  | .ret => (x.markReturn id .ret, none)
  | .reti => (x.markReturn id .reti, none)

/-- Adds the interrupts and the effect of a cell. -/
def execute (x : Exploration) (code : Code) (vectorSize : Int) (id : StateId) (s : State)
    (cell : Cell) : Exploration × Option RunError :=
  let x := (x.note (.exploring id cell s)).interrupts vectorSize id s
  match s.stepCell code.next cell with
  | (_, .error cause) => (x, some (.step id cause))
  | (t, .ok effect) => x.apply code id t effect

/-- Explores a state that was taken from the frontier. -/
def explore (x : Exploration) (code : Code) (vectorSize : Int) (id : StateId) :
    Exploration × Option RunError :=
  if (x.graph.node id).onFrontier then (x, some (.frontier ⟨id⟩))
  else
    let x := { x with graph := x.graph.markExplored id }
    let s := x.graph.state id
    match code.fetch s.pc with
    | .error cause => (x, some (.fetch id cause))
    | .ok cell => x.execute code vectorSize id s cell

end Exploration

end StackDepth
