import StackDepth.Graph.Cache
import StackDepth.Graph.Edge
import StackDepth.Graph.ReturnSet

/-!
# The transition graph

The nodes of the graph are interned states. Every edge is listed at its source and at its target, and
no two edges agree in source, target and kind. A node may wait on the frontier, from which the latest
one is taken first, or be explored, but not both. Four counters run along, so that the progress of a
large analysis can be shown at any time.

Reading a number that no node or edge has gives a default; `Graph.hasNode` tells whether there is one.
-/

namespace StackDepth

/-- What the graph keeps for a state. -/
structure Node where
  /-- How the instruction of the state ends. -/
  kind : StateKind := .normal
  /-- The state waits on the frontier. -/
  onFrontier : Bool := false
  /-- The state has been explored. -/
  explored : Bool := false
  /-- The edges that leave the state. -/
  out : Array EdgeId := #[]
  /-- The edges that enter the state. -/
  into : Array EdgeId := #[]
  /-- The return states reached from the state. -/
  returns : ReturnSet := {}
deriving Inhabited

/-- States and the transitions between them. -/
structure Graph where
  /-- The states. -/
  cache : Cache := {}
  /-- What is kept for each state. -/
  nodes : Array Node := #[]
  /-- The edges in the order in which they were added. -/
  edges : Array Edge := #[]
  /-- The states that wait, the latest first. -/
  frontier : List StateId := []
  /-- The start state. -/
  eden : StateId := 0
  /-- The number of states on the frontier. -/
  frontierCount : Nat := 0
  /-- The number of explored states. -/
  exploredCount : Nat := 0
  /-- The number of edges. -/
  edgeCount : Nat := 0
  /-- The number of states. -/
  stateCount : Nat := 0
deriving Inhabited

/-- A state was to be marked as explored while it waits on the frontier. -/
structure StillOnFrontier where
  /-- The state. -/
  id : StateId
deriving DecidableEq, Inhabited

/-- The text of the error. -/
def StillOnFrontier.message (e : StillOnFrontier) : String :=
  "stack: state " ++ Text.decimal e.id ++ " explored while on the frontier"

/-- What came of adding an edge. -/
inductive Link where
  /-- The edge is new. -/
  | added (e : EdgeId)
  /-- The edge was there. -/
  | present (e : EdgeId)
  /-- The source or the target is no node. -/
  | missing
deriving DecidableEq, Inhabited

namespace Graph

/-! ### Reading -/

/-- There is a node with this number. -/
def hasNode (g : Graph) (id : StateId) : Bool := id < g.nodes.size

/-- What is kept for a state. -/
def node (g : Graph) (id : StateId) : Node := g.nodes.getD id {}

/-- The edge with a number. -/
def edge (g : Graph) (e : EdgeId) : Edge := g.edges.getD e default

/-- The state with a number. -/
def state (g : Graph) (id : StateId) : State := (g.cache.state? id).getD .reset

/-- The program counter of a state. -/
def pc (g : Graph) (id : StateId) : Address := (g.state id).pc

/-- The number of interned states. -/
def size (g : Graph) : Nat := g.cache.size

/-- The edges that leave a state, in the order in which they were added. -/
def outgoing (g : Graph) (id : StateId) : List EdgeId := (g.node id).out.toList

/-- The edges that enter a state, in the order in which they were added. -/
def incoming (g : Graph) (id : StateId) : List EdgeId := (g.node id).into.toList

/-- The total weight of a list of edges. -/
def weightOf (g : Graph) (path : List EdgeId) : Int := path.foldr (fun e w => (g.edge e).weight + w) 0

/-- Every edge leads to a node. -/
def isClosed (g : Graph) : Bool := g.edges.all fun e => e.target < g.size

/-! ### Building -/

/-- The number of a state, for which a node is made if it is new. -/
def intern (g : Graph) (s : State) : Graph × StateId :=
  match g.cache.find? s with
  | some id => (g, id)
  | none =>
      let id := g.size
      ({ g with
        cache := g.cache.push s
        nodes := g.nodes.push {}
        stateCount := g.stateCount + 1 }, id)

/-- Marks how the instruction of a state ends. -/
def setKind (g : Graph) (id : StateId) (k : StateKind) : Graph :=
  { g with nodes := g.nodes.modify id fun n => { n with kind := k } }

/-- Puts a state on the frontier, unless it waits there or is explored. -/
def pushFrontier (g : Graph) (id : StateId) : Graph :=
  if (g.node id).onFrontier || (g.node id).explored then g
  else
    { g with
      nodes := g.nodes.modify id fun n => { n with onFrontier := true }
      frontier := id :: g.frontier
      frontierCount := g.frontierCount + 1 }

/-- Takes a state, which is the latest, from the frontier. -/
def dropFrontier (g : Graph) (id : StateId) : Graph :=
  { g with
    nodes := g.nodes.modify id fun n => { n with onFrontier := false }
    frontier := g.frontier.tail
    frontierCount := g.frontierCount - 1 }

/-- Takes the latest state from the frontier. -/
def popFrontier? (g : Graph) : Option (StateId × Graph) :=
  match g.frontier with
  | [] => none
  | id :: _ => some (id, g.dropFrontier id)

/-- Marks a state as explored. -/
def markExplored (g : Graph) (id : StateId) : Graph :=
  if (g.node id).explored then g
  else
    { g with
      nodes := g.nodes.modify id fun n => { n with explored := true }
      exploredCount := g.exploredCount + 1 }

/-- Marks a state that has left the frontier as explored. -/
def setExplored (g : Graph) (id : StateId) : Except StillOnFrontier Graph :=
  if (g.node id).onFrontier then .error ⟨id⟩ else .ok (g.markExplored id)

/-- The edge of a kind between two states, if there is one. -/
def findEdge? (g : Graph) (src dst : StateId) (kind : EdgeKind) : Option EdgeId :=
  (g.node src).out.find? fun e => (g.edge e).target == dst && (g.edge e).kind == kind

/-- Adds an edge at the end of the list and at its source. -/
def leave (g : Graph) (src dst : StateId) (kind : EdgeKind) : Graph :=
  let e := g.edges.size
  { g with
    edges := g.edges.push ⟨src, dst, kind⟩
    nodes := g.nodes.modify src fun n => { n with out := n.out.push e } }

/-- Lists an edge at its target and counts it. -/
def enter (g : Graph) (e : EdgeId) (dst : StateId) : Graph :=
  { g with
    nodes := g.nodes.modify dst fun n => { n with into := n.into.push e }
    edgeCount := g.edgeCount + 1 }

/-- Joins two states unless an edge of the kind does so. An edge to a target that is no node stays
listed at its source but is not counted. -/
def addEdge (g : Graph) (src dst : StateId) (kind : EdgeKind) : Graph × Link :=
  if g.hasNode src then
    match g.findEdge? src dst kind with
    | some e => (g, .present e)
    | none =>
        let e := g.edges.size
        if g.hasNode dst then ((g.leave src dst kind).enter e dst, .added e)
        else (g.leave src dst kind, .missing)
  else (g, .missing)

/-- Replaces the return set of a state. -/
def setReturns (g : Graph) (id : StateId) (s : ReturnSet) : Graph :=
  { g with nodes := g.nodes.modify id fun n => { n with returns := s } }

/-- Empties every return set. -/
def deleteReturns (g : Graph) : Graph :=
  { g with nodes := g.nodes.map fun n => { n with returns := {} } }

/-- The graph of a start state, which waits on the frontier. -/
def start (s : State) : Graph :=
  let (g, id) := ({} : Graph).intern s
  { g with eden := id }.pushFrontier id

end Graph

end StackDepth
