import StackDepth.Graph.Components

/-!
# The heaviest path

The components are processed successors first. Inside a component, a breadth-first search gives every
state a potential such that an edge from `u` to `v` inside the component has the weight `p v - p u`. An
edge that breaks this closes a cycle whose weight is not zero, and there is no heaviest path. Otherwise
every path inside the component from `n` to `x` weighs `p x - p n`, and the best continuation from `n`
weighs the maximum over `x` of `p x + exit x`, minus `p n`, where `exit x` is the best edge that leaves
the component from `x`, or zero for stopping there.
-/

namespace StackDepth

/-- The heaviest path from the start state, or a cycle that shows that there is none. -/
inductive MaxPath where
  /-- A path and its weight. -/
  | bounded (depth : Int) (path : List EdgeId)
  /-- A closed walk whose weight is not zero, and a path to it. -/
  | unbounded (approach cycle : List EdgeId)
deriving DecidableEq, Inhabited

namespace Graph

/-! ### Shortest paths -/

/-- The edges through which a breadth-first search reached the states. -/
abbrev Trail := Array (Option EdgeId)

/-- The edges of a trail from a state back to `src`, put in front of `path`; `fuel` bounds their
number. -/
def retrace (g : Graph) (trail : Trail) (src : StateId) : Nat → StateId → List EdgeId → List EdgeId
  | 0, _, path => path
  | fuel + 1, id, path =>
      if id = src then path
      else
        match trail.getD id none with
        | some e => g.retrace trail src fuel (g.edge e).source (e :: path)
        | none => path

/-- Follows edges to allowed states that the trail does not know: the trail, the states it gained,
latest first, and whether `dst` is among them, in which case the rest is left out. -/
def extendTrail (g : Graph) (allowed : StateId → Bool) (src dst : StateId) :
    List EdgeId → Trail → List StateId → Trail × List StateId × Bool
  | [], trail, gained => (trail, gained, false)
  | e :: rest, trail, gained =>
      let t := (g.edge e).target
      if t = src || (trail.getD t none).isSome || !allowed t then
        g.extendTrail allowed src dst rest trail gained
      else
        let trail := trail.setIfInBounds t (some e)
        if t = dst then (trail, t :: gained, true)
        else g.extendTrail allowed src dst rest trail (t :: gained)

/-- Searches from the states of a queue until `dst` is found. -/
def searchTrail (g : Graph) (allowed : StateId → Bool) (src dst : StateId) :
    Nat → List StateId → Trail → Option Trail
  | 0, _, _ => none
  | _ + 1, [], _ => none
  | fuel + 1, u :: queue, trail =>
      match g.extendTrail allowed src dst (g.outgoing u) trail [] with
      | (trail, _, true) => some trail
      | (trail, gained, false) =>
          g.searchTrail allowed src dst fuel (queue ++ gained.reverse) trail

/-- A path with the fewest edges from `src` to `dst` through allowed states; the empty path if both are
one state or if there is none. -/
def shortestPath (g : Graph) (allowed : StateId → Bool) (src dst : StateId) : List EdgeId :=
  if src = dst then []
  else
    match g.searchTrail allowed src dst (g.size + 1) [src] (Array.replicate g.size none) with
    | some trail => g.retrace trail src (g.size + 1) dst []
    | none => []

/-! ### Potentials -/

/-- Potentials of the states reached so far. -/
structure Potentials where
  /-- The potential of each state that was reached. -/
  value : Array (Option Int)
  /-- The edge through which each state was reached; none for the first state of a component. -/
  via : Trail
deriving Inhabited

namespace Potentials

/-- No state among `n` reached. -/
def fresh (n : Nat) : Potentials :=
  { value := Array.replicate n none, via := Array.replicate n none }

/-- The potential of a state, zero if it has none. -/
def get (p : Potentials) (id : StateId) : Int := (p.value.getD id none).getD 0

/-- The state was reached. -/
def has (p : Potentials) (id : StateId) : Bool := (p.value.getD id none).isSome

/-- Gives a state a potential. -/
def assign (p : Potentials) (id : StateId) (v : Int) (via : Option EdgeId) : Potentials :=
  { value := p.value.setIfInBounds id (some v), via := p.via.setIfInBounds id via }

end Potentials

/-- The number of the component of each state. -/
def componentOf (g : Graph) (comps : List (List StateId)) : Array Nat :=
  comps.zipIdx.foldl (fun acc (c, i) => c.foldl (fun acc id => acc.setIfInBounds id i) acc)
    (Array.replicate g.size 0)

/-- Follows the edges of `u` inside its component: the potentials and the states reached, latest first,
or the first edge that breaks the rule. -/
def spreadEdges (g : Graph) (inside : StateId → Bool) (u : StateId) :
    List EdgeId → Potentials → List StateId → Except (EdgeId × Potentials) (Potentials × List StateId)
  | [], p, gained => .ok (p, gained)
  | e :: rest, p, gained =>
      let t := (g.edge e).target
      let v := p.get u + (g.edge e).weight
      if !inside t then g.spreadEdges inside u rest p gained
      else if !p.has t then g.spreadEdges inside u rest (p.assign t v (some e)) (t :: gained)
      else if p.get t ≠ v then .error (e, p)
      else g.spreadEdges inside u rest p gained

/-- Spreads potentials from the states of a queue: the potentials and all states of the queue, in the
order in which they were taken from it. -/
def spread (g : Graph) (inside : StateId → Bool) :
    Nat → List StateId → Potentials → List StateId →
      Except (EdgeId × Potentials) (Potentials × List StateId)
  | 0, _, p, order => .ok (p, order.reverse)
  | _ + 1, [], p, order => .ok (p, order.reverse)
  | fuel + 1, u :: queue, p, order =>
      match g.spreadEdges inside u (g.outgoing u) p [] with
      | .error found => .error found
      | .ok (p, gained) => g.spread inside fuel (queue ++ gained.reverse) p (u :: order)

/-! ### Processing the components -/

/-- The best weight of a path that leaves the component from `x`, and its first edge; zero and no edge
for staying. The first of equally good edges is taken. -/
def bestExit (g : Graph) (inside : StateId → Bool) (value : Array Int) (x : StateId) :
    Int × Option EdgeId :=
  (g.outgoing x).foldl
    (fun best e =>
      let t := (g.edge e).target
      let v := (g.edge e).weight + value.getD t 0
      if inside t then best else if best.1 < v then (v, some e) else best)
    (0, none)

/-- Where a path through a component does best to end or to leave. -/
structure Exit where
  /-- The potential of the state plus what follows. -/
  score : Int
  /-- The state. -/
  state : StateId
  /-- The edge by which the component is left; none if the path ends. -/
  edge : Option EdgeId
deriving DecidableEq, Inhabited

/-- The better of two ways to leave; the first one if they are equally good. -/
def Exit.better (a b : Exit) : Exit := if a.score < b.score then b else a

/-- The way to leave from one state. -/
def exitAt (g : Graph) (inside : StateId → Bool) (p : Potentials) (value : Array Int)
    (x : StateId) : Exit :=
  let (ex, e) := g.bestExit inside value x
  ⟨p.get x + ex, x, e⟩

/-- The first best way to leave from the states of a list. -/
def exitOf (g : Graph) (inside : StateId → Bool) (p : Potentials) (value : Array Int) :
    List StateId → Exit
  | [] => ⟨0, 0, none⟩
  | x :: rest =>
      rest.foldl (fun best y => best.better (g.exitAt inside p value y)) (g.exitAt inside p value x)

/-- The components processed so far. -/
structure Sweep where
  /-- The potentials. -/
  potentials : Potentials
  /-- The weight of the best path from each state. -/
  value : Array Int
  /-- The way to leave each component. -/
  exits : Array Exit := #[]
deriving Inhabited

/-- An edge that closes a cycle whose weight is not zero. -/
structure Conflict where
  /-- The first state of the component. -/
  root : StateId
  /-- The edge. -/
  edge : EdgeId
  /-- The potentials when it was found. -/
  potentials : Potentials
deriving Inhabited

/-- Processes the component with number `i`. -/
def sweepComponent (g : Graph) (comp : Array Nat) (i : Nat) (c : List StateId) :
    Sweep → Except Conflict Sweep
  | ⟨potentials, value, exits⟩ =>
      let root := c.headD 0
      let inside (t : StateId) : Bool := comp[t]? == some i
      match g.spread inside (c.length + 1) [root] (potentials.assign root 0 none) [] with
      | .error (e, p) => .error ⟨root, e, p⟩
      | .ok (p, order) =>
          let exit := g.exitOf inside p value order
          .ok ⟨p, order.foldl (fun value x => value.setIfInBounds x (exit.score - p.get x)) value,
            exits.push exit⟩

/-- Processes components from number `i` on. -/
def sweep (g : Graph) (comp : Array Nat) : Nat → List (List StateId) → Sweep → Except Conflict Sweep
  | _, [], s => .ok s
  | i, c :: rest, s =>
      match g.sweepComponent comp i c s with
      | .ok s => g.sweep comp (i + 1) rest s
      | .error conflict => .error conflict

/-- Goes from component to component by their exits. -/
def followExits (g : Graph) (comp : Array Nat) (exits : Array Exit) : Nat → StateId → List EdgeId
  | 0, _ => []
  | fuel + 1, id =>
      let i := comp.getD id 0
      let exit := exits.getD i default
      let within := g.shortestPath (fun t => comp[t]? == some i) id exit.state
      match exit.edge with
      | none => within
      | some e => within ++ e :: g.followExits comp exits fuel (g.edge e).target

/-- The witness for a conflicting edge from `u` to `v`. With the tree paths from the root to `u` and to
`v` and a path back from `v` to the root, two closed walks differ in weight by what the edge breaks the
rule by, so that one of them has a weight that is not zero. -/
def unboundedBy (g : Graph) (comp : Array Nat) (c : Conflict) : MaxPath :=
  let e := g.edge c.edge
  let tree (id : StateId) : List EdgeId := g.retrace c.potentials.via c.root (g.size + 1) id []
  let back := g.shortestPath (fun t => comp[t]? == comp[e.target]?) e.target c.root
  let round := tree e.source ++ c.edge :: back
  .unbounded (g.shortestPath (fun _ => true) g.eden c.root)
    (if g.weightOf round = 0 then tree e.target ++ back else round)

/-- The heaviest path from the start state. -/
def maxPath (g : Graph) : MaxPath :=
  let comps := g.components
  let comp := g.componentOf comps
  match g.sweep comp 0 comps
      { potentials := .fresh g.size, value := Array.replicate g.size 0 } with
  | .error conflict => g.unboundedBy comp conflict
  | .ok s =>
      .bounded (s.value.getD g.eden 0) (g.followExits comp s.exits (comps.length + 1) g.eden)

end Graph

end StackDepth
