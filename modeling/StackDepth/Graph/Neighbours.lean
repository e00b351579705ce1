import StackDepth.Graph.Basic

/-!
# Neighbours

The graph as a relation between states: parallel edges count once, and neighbours are listed in
increasing order.
-/

namespace StackDepth

namespace Graph

/-- The list in increasing order without repetitions. -/
def sortedIds (ids : List StateId) : List StateId := (ids.mergeSort (· ≤ ·)).eraseDups

/-- The states that an edge from `id` enters. -/
def successors (g : Graph) (id : StateId) : List StateId :=
  sortedIds ((g.outgoing id).map fun e => (g.edge e).target)

/-- The states that an edge to `id` leaves. -/
def predecessors (g : Graph) (id : StateId) : List StateId :=
  sortedIds ((g.incoming id).map fun e => (g.edge e).source)

/-- Some edge leads from `u` to `v`, and both are nodes. -/
def joins (g : Graph) (u v : StateId) : Bool :=
  g.hasNode u && g.hasNode v && (g.outgoing u).any fun e => (g.edge e).target == v

end Graph

end StackDepth
