import StackDepth.Graph.Neighbours

/-!
# Strongly connected components

Two depth-first searches find the components. The first one goes along the edges, takes the states and
the successors of a state in increasing order, and lists the states in the order in which they are
finished. The second one goes against the edges and starts from the state that was finished last: what
it reaches for the first time is one component. A component comes behind all components that its edges
lead to, so that the list of components is in the order in which a single search completes them.

A search keeps its own stack of tasks; the number of tasks is bounded by the number of nodes and edges.
-/

namespace StackDepth

/-- What a search has to do next. -/
inductive SearchTask where
  /-- Visit a state and all that can be reached from it. -/
  | visit (id : StateId)
  /-- List a state whose successors are all visited. -/
  | finish (id : StateId)
deriving DecidableEq, Inhabited

/-- A search in progress. -/
structure Search where
  /-- The states visited so far; a number that no node has counts as visited. -/
  seen : Array Bool
  /-- The states finished so far, the latest first. -/
  finished : List StateId := []
deriving Inhabited

namespace Search

/-- Carries out tasks. Visiting a new state puts its neighbours before the task that finishes it. -/
def run (neighbours : Array (List StateId)) : Nat → List SearchTask → Search → Search
  | 0, _, s => s
  | _ + 1, [], s => s
  | fuel + 1, .finish id :: rest, ⟨seen, finished⟩ => run neighbours fuel rest ⟨seen, id :: finished⟩
  | fuel + 1, .visit id :: rest, ⟨seen, finished⟩ =>
      if seen.getD id true then run neighbours fuel rest ⟨seen, finished⟩
      else
        run neighbours fuel ((neighbours.getD id []).map .visit ++ .finish id :: rest)
          ⟨seen.setIfInBounds id true, finished⟩

/-- Enough fuel to visit every node from `starts` many states: every node is visited once and finished
once, and every neighbour and start is taken from the stack once. -/
def fuelFor (neighbours : Array (List StateId)) (starts : Nat) : Nat :=
  2 * neighbours.size + neighbours.foldl (fun n ids => n + ids.length) 0 + starts + 1

/-- Nothing visited among `n` nodes. -/
def fresh (n : Nat) : Search := { seen := Array.replicate n false }

end Search

namespace Graph

/-- The successors of every state. -/
def adjacency (g : Graph) : Array (List StateId) := ((List.range g.size).map g.successors).toArray

/-- The lists with every arrow turned around. -/
def reverseLists (lists : Array (List StateId)) : Array (List StateId) :=
  lists.toList.zipIdx.foldr
    (fun (targets, source) acc => targets.foldl (fun acc t => acc.modify t (source :: ·)) acc)
    (Array.replicate lists.size [])

/-- Adds the component of a state that no earlier search has reached. -/
def addComponent (neighbours : Array (List StateId)) (fuel : Nat) :
    Array Bool × List (List StateId) → StateId → Array Bool × List (List StateId)
  | (seen, comps), id =>
      match Search.run neighbours fuel [.visit id] { seen } with
      | ⟨seen, []⟩ => (seen, comps)
      | ⟨seen, found⟩ => (seen, found.mergeSort (· ≤ ·) :: comps)

/-- All states, the one that a search along the edges finishes last first. -/
def finishingOrder (g : Graph) : List StateId :=
  let forward := g.adjacency
  (Search.run forward (Search.fuelFor forward g.size) ((List.range g.size).map .visit)
    (.fresh g.size)).finished

/-- The strongly connected components, each in increasing order. -/
def components (g : Graph) : List (List StateId) :=
  let backward := reverseLists g.adjacency
  (g.finishingOrder.foldl (addComponent backward (Search.fuelFor backward 1))
    (Array.replicate g.size false, [])).2

/-- The component contains a cycle: more than one state, or a state with an edge to itself. -/
def isCyclic (g : Graph) : List StateId → Bool
  | [] => false
  | [id] => g.joins id id
  | _ => true

/-- The components that contain a cycle, in the order of their smallest states. -/
def cyclicRegions (g : Graph) : List (List StateId) :=
  (g.components.filter g.isCyclic).mergeSort fun a b => a.headD 0 ≤ b.headD 0

end Graph

end StackDepth
