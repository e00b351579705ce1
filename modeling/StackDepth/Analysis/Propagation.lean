import StackDepth.Analysis.Exploration

/-!
# Return propagation

Exploration stops at every call, so the return edges of a call are found by walking backwards from each
return state until an edge is met that enters the callee or the handler; its source is then joined to
the state in which it resumes. Every state on the way records the return states that reach it, so that a
later edge into an explored state can hand over the whole set without another walk. Only the part of a
set that is new to a state travels further, hence a walk ends.

A call resumes behind the call instruction, an interrupt at the interrupted instruction, and a return
from an interrupt enables interrupts.
-/

namespace StackDepth

/-- How many different states there are. -/
def stateBound : Nat := Nat.pow 2 576

/-- More items than a walk can have: an item that is not dropped adds an element to a return set, and is
followed by one item for each edge into its state. -/
def walkBound : Nat := 8 * (stateBound * stateBound * stateBound) + 2

/-- A state and the return states that arrive at it. -/
structure WalkItem where
  /-- The state. -/
  node : StateId
  /-- The return states. -/
  delta : List StateId
deriving DecidableEq, Inhabited

namespace Exploration

/-- The state in which a caller resumes after the return state `s`. -/
def resumedState (s : State) (kind : StateKind) (resume : Address) : State :=
  { (if kind = .reti then s.setFlag Flag.I .yes else s) with pc := resume }

/-- The kind of the edge to the state in which a caller resumes. -/
def returnEdgeKind (kind : StateKind) : EdgeKind := if kind = .reti then .reti else .ret

/-- The address at which the source of an edge that enters a frame resumes. -/
def resumeAddress (code : Code) (g : Graph) (e : Edge) : Except FetchError Address :=
  if e.kind = .call then code.next (g.pc e.source) else .ok (g.pc e.source)

/-- Joins the source of an edge that enters a frame to the states it resumes in. -/
def stitch (x : Exploration) (code : Code) (e : Edge) (rets : List StateId) :
    Exploration × Option RunError :=
  match resumeAddress code x.graph e with
  | .error cause => (x, some (.resume cause))
  | .ok resume =>
      (rets.foldl
        (fun x r =>
          let kind := (x.graph.node r).kind
          x.addEdge e.source (returnEdgeKind kind) (resumedState (x.graph.state r) kind resume))
        x, none)

/-- Takes return states backwards over edges: those that enter a frame are stitched, the sources of all
others are added to the work. -/
def walkEdges (code : Code) (delta : List StateId) :
    List EdgeId → Exploration → List WalkItem → Exploration × List WalkItem × Option RunError
  | [], x, work => (x, work, none)
  | e :: rest, x, work =>
      let edge := x.graph.edge e
      if edge.kind.entersFrame then
        match x.stitch code edge delta with
        | (x, none) => walkEdges code delta rest x work
        | (x, some error) => (x, work, some error)
      else walkEdges code delta rest x (⟨edge.source, delta⟩ :: work)

/-- Adds return states to the set of a state, giving those that were new to it. -/
def absorb (x : Exploration) (id : StateId) (rets : List StateId) : Exploration × List StateId :=
  let (set, fresh) := (x.graph.node id).returns.addAll rets
  ({ x with graph := x.graph.setReturns id set }, fresh)

/-- Carries out the work of a walk, the latest item first. -/
def walk (code : Code) : Nat → List WalkItem → Exploration → Exploration × Option RunError
  | 0, _, x => (x, none)
  | _ + 1, [], x => (x, none)
  | fuel + 1, item :: work, x =>
      match x.absorb item.node item.delta with
      | (x, []) => walk code fuel work x
      | (x, fresh) =>
          match walkEdges code fresh (x.graph.incoming item.node) x work with
          | (x, work, none) => walk code fuel work x
          | (x, _, some error) => (x, some error)

/-- Adds return states to the set of a state and walks backwards. -/
def propagate (x : Exploration) (code : Code) (id : StateId) (rets : List StateId) :
    Exploration × Option RunError :=
  walk code walkBound [⟨id, rets⟩] x

/-- Propagates a return state that was taken from the queue. -/
def propagateReturn (x : Exploration) (code : Code) (id : StateId) : Exploration × Option RunError :=
  (x.note (.propagatingReturn id)).propagate code id [id]

/-- Hands the return set of the target of an edge to its source. -/
def propagateEdge (x : Exploration) (code : Code) (id : EdgeId) : Exploration × Option RunError :=
  let e := x.graph.edge id
  let set := (x.graph.node e.target).returns
  if set.size = 0 then (x, none)
  else
    let x := x.note (.propagatingEdge id e.kind set.size)
    if e.kind.entersFrame then x.stitch code e set.items else x.propagate code e.source set.items

/-- Propagates the latest return state, or else the latest edge. -/
def propagateNext (x : Exploration) (code : Code) : Exploration × Option RunError :=
  match x.newReturns, x.newEdges with
  | id :: rest, _ =>
      { x with newReturns := rest, pendingReturns := x.pendingReturns - 1 }.propagateReturn code id
  | [], e :: rest =>
      { x with newEdges := rest, pendingEdges := x.pendingEdges - 1 }.propagateEdge code e
  | [], [] => (x, none)

end Exploration

end StackDepth
