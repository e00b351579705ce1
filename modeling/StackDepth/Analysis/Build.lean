import StackDepth.Analysis.Propagation

/-!
# Building the state space

States on the frontier are explored first; when there is none, the latest return state is propagated, and
when there is none either, the latest queued edge. The state space is complete when nothing waits.

Every so many explored states the analysis asks whether it was cancelled and whether a budget ran out;
before every propagation it asks whether it was cancelled. The answers come from the surroundings and are
functions of how often they were asked for.
-/

namespace StackDepth

/-- What limits an analysis. -/
structure Limits where
  /-- The distance between interrupt vectors; the default if it is not positive. -/
  vectorSize : Int := 0
  /-- The number of states allowed; no limit if it is not positive. -/
  maxStates : Int := 0
  /-- The bytes of memory allowed; no limit if it is zero. -/
  memoryLimit : Nat := 0
  /-- The number of explored states between two checks; the default if it is not positive. -/
  checkEvery : Int := 0
deriving DecidableEq, Inhabited

namespace Limits

/-- The distance between vectors that is in force. -/
def vectors (l : Limits) : Int := if l.vectorSize ≤ 0 then defaultVectorSize else l.vectorSize

/-- The number of explored states between checks that is in force. -/
def interval (l : Limits) : Nat := if l.checkEvery ≤ 0 then 4096 else l.checkEvery.toNat

end Limits

/-- What the surroundings of an analysis answer. -/
structure Surroundings where
  /-- The analysis is cancelled, by the number of earlier questions. -/
  isCancelled : Nat → Bool := fun _ => false
  /-- The bytes of memory in use, by the number of earlier questions. -/
  memoryUse : Nat → Nat := fun _ => 0

/-- How building ended. -/
inductive Ending where
  /-- Nothing waits. -/
  | complete
  /-- The analysis was cancelled. -/
  | stopped
  /-- A budget ran out. -/
  | exhausted
deriving DecidableEq, Inhabited

/-- What follows a step of building. -/
inductive Verdict where
  /-- Another step. -/
  | goOn
  /-- The end. -/
  | ended (how : Ending)
  /-- An error. -/
  | failed (error : RunError)
deriving DecidableEq, Inhabited

/-- The state of building. -/
structure Building where
  /-- The graph and the work that waits. -/
  work : Exploration
  /-- How many states were explored. -/
  explored : Nat := 0
  /-- How often the surroundings were asked for cancellation. -/
  polls : Nat := 0
  /-- How often the surroundings were asked for the memory in use. -/
  readings : Nat := 0
deriving Inhabited

namespace Building

/-- More steps than building can take: every state is explored once and propagated at most once, and
every edge is queued at most once. -/
def stepBound : Nat := 8 * (stateBound * stateBound) + 2 * stateBound + 2

/-- Asks for cancellation. -/
def poll (b : Building) (around : Surroundings) : Building × Bool :=
  ({ b with polls := b.polls + 1 }, around.isCancelled b.polls)

/-- More states are interned than allowed. -/
def hasTooManyStates (b : Building) (limits : Limits) : Bool :=
  0 < limits.maxStates && limits.maxStates < b.work.graph.size

/-- Asks whether a budget ran out. The memory in use is asked for only if it is limited and the number of
states is not exceeded. -/
def isOverBudget (b : Building) (limits : Limits) (around : Surroundings) : Building × Bool :=
  if b.hasTooManyStates limits then (b, true)
  else if limits.memoryLimit = 0 then (b, false)
  else
    ({ b with readings := b.readings + 1 }, limits.memoryLimit < around.memoryUse b.readings)

/-- Adds an event to the log. -/
def note (b : Building) (e : Event) : Building := { b with work := b.work.note e }

/-- Asks for cancellation and budgets after a state was explored. -/
def checkpoint (b : Building) (limits : Limits) (around : Surroundings) : Building × Verdict :=
  match b.poll around with
  | (b, true) => (b.note (.stopped b.explored), .ended .stopped)
  | (b, false) =>
      match b.isOverBudget limits around with
      | (b, true) => (b.note (.outOfBudget b.explored), .ended .exhausted)
      | (b, false) => (b, .goOn)

/-- Takes a state from the frontier. -/
def take (b : Building) (id : StateId) : Building :=
  { b with work := { b.work with graph := b.work.graph.dropFrontier id } }

/-- Explores a state that was taken from the frontier. -/
def exploreStep (b : Building) (code : Code) (limits : Limits) (around : Surroundings)
    (id : StateId) : Building × Verdict :=
  match b.work.explore code limits.vectors id with
  | (work, some error) => ({ b with work }, .failed error)
  | (work, none) =>
      let b := { b with work, explored := b.explored + 1 }
      if b.explored % limits.interval = 0 then b.checkpoint limits around else (b, .goOn)

/-- Propagates what waits, unless the analysis is cancelled. -/
def propagateStep (b : Building) (code : Code) (around : Surroundings) : Building × Verdict :=
  match b.poll around with
  | (b, true) =>
      (b.note (.stoppedPropagating b.work.newReturns.length b.work.newEdges.length), .ended .stopped)
  | (b, false) =>
      match b.work.propagateNext code with
      | (work, some error) => ({ b with work }, .failed error)
      | (work, none) => ({ b with work }, .goOn)

/-- One step of building. -/
def step (b : Building) (code : Code) (limits : Limits) (around : Surroundings) :
    Building × Verdict :=
  match b.work.graph.frontier with
  | id :: _ => (b.take id).exploreStep code limits around id
  | [] =>
      if b.work.newReturns.isEmpty && b.work.newEdges.isEmpty then (b, .ended .complete)
      else b.propagateStep code around

/-- Steps until the end or an error; without fuel building counts as cancelled. -/
def loop (code : Code) (limits : Limits) (around : Surroundings) :
    Nat → Building → Building × Except RunError Ending
  | 0, b => (b, .ok .stopped)
  | fuel + 1, b =>
      match b.step code limits around with
      | (b, .goOn) => loop code limits around fuel b
      | (b, .ended how) => (b, .ok how)
      | (b, .failed error) => (b, .error error)

/-- Builds the state space from a start state, unless the analysis is cancelled from the outset. -/
def run (code : Code) (limits : Limits) (around : Surroundings) (s : State) :
    Building × Except RunError Ending :=
  match poll { work := .start s } around with
  | (b, true) => (b, .ok .stopped)
  | (b, false) => loop code limits around stepBound b

end Building

end StackDepth
