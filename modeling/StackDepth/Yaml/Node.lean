/-!
# YAML nodes

A document is a scalar, a sequence, a mapping, or the repetition of a node by its name. A scalar keeps its
text, whether it was quoted and its tag, since what an unquoted scalar stands for depends on the type that
is asked for. A node that is left out is the empty scalar.
-/

namespace StackDepth

namespace Yaml

/-- A scalar as it is written. -/
structure Scalar where
  /-- The text. -/
  text : String := ""
  /-- The scalar is no plain one. -/
  quoted : Bool := false
  /-- What the scalar is said to stand for. -/
  tag : Option String := none
deriving DecidableEq, Inhabited

/-- A part of a document. -/
inductive Node where
  /-- A text. -/
  | scalar (s : Scalar)
  /-- Nodes in order. -/
  | sequence (items : List Node)
  /-- Pairs of a key and a value, in order. -/
  | mapping (entries : List (Node × Node))
  /-- A node that is repeated by its name, or none if it is repeated inside itself. -/
  | alias (name : String) (target : Option Node)
deriving Inhabited

namespace Node

/-- What stands for a node that is left out. -/
def missing : Node := .scalar {}

/-- The node itself, also if it is repeated; none if it is repeated inside itself. -/
def resolve? : Node → Option Node
  | .alias _ target => target
  | n => some n

end Node

end Yaml

end StackDepth
