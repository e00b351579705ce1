import StackDepth.Digest
import StackDepth.Graph.Basic

/-!
# Dumps

A dump has one line for every state and then one line for every edge, both in the order of their
numbers. It depends on the program and the start state only, so that its digest tells two analyses
apart.
-/

namespace StackDepth

namespace Graph

/-- The line of a state. -/
def stateLine (g : Graph) (id : StateId) : String :=
  "[" ++ Text.decimal id ++ ":" ++ (g.node id).kind.name ++ "] " ++ (g.state id).render

/-- The line of an edge that leads to a state of this name. -/
def edgeLineTo (target : String) (e : Edge) : String :=
  "[" ++ Text.decimal e.source ++ "] --(" ++ e.kind.name ++ "," ++ Text.decimal e.weight ++ ")--> [" ++
    target ++ "]"

/-- The line of an edge. -/
def edgeLine (e : Edge) : String := edgeLineTo (Text.decimal e.target) e

/-- The lines of a dump. -/
def dumpLines (g : Graph) : List String :=
  (List.range g.size).map g.stateLine ++ g.edges.toList.map edgeLine

/-- The text of a dump. -/
def dump (g : Graph) : String := Text.unlines g.dumpLines

/-- The digest of the text with these lines, as sixteen digits. -/
def digestOf (lines : List String) : String := Text.lowerHex 16 (Digest.ofString (Text.unlines lines)).toNat

/-- The digest of a dump, as sixteen digits. -/
def digest (g : Graph) : String := digestOf g.dumpLines

end Graph

end StackDepth
