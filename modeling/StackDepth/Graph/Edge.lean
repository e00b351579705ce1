import StackDepth.Text.Pad

/-!
# Kinds of edges and of states

An edge of the transition graph joins two interned states. Its kind says what happens on it, and the
kind alone fixes how many bytes the stack grows: a push adds one byte, a pop takes one away, a call or
an interrupt pushes a return address of two bytes, and all other edges leave the stack alone. A return
edge leads from a call to the state in which the caller resumes, where the return address is gone.
-/

namespace StackDepth

/-- The number of an interned state. -/
abbrev StateId := Nat

/-- The number of an edge. -/
abbrev EdgeId := Nat

/-- What happens on an edge. -/
inductive EdgeKind where
  /-- An instruction that leaves the stack alone. -/
  | normal
  /-- One byte is pushed. -/
  | push
  /-- One byte is popped. -/
  | pop
  /-- A call, to the first state of the callee. -/
  | call
  /-- An interrupt, to its vector. -/
  | interrupt
  /-- From a call to the state in which its caller resumes. -/
  | ret
  /-- The same, for a return from an interrupt. -/
  | reti
  /-- A transition that is none of these. -/
  | special
deriving DecidableEq, Inhabited

namespace EdgeKind

/-- All kinds in the order of their numbers. -/
def all : List EdgeKind := [normal, push, pop, call, interrupt, ret, reti, special]

/-- The kind with a number. -/
def ofCode? (n : Nat) : Option EdgeKind := all[n]?

/-- The bytes pushed on an edge; negative if bytes are popped. -/
def weight : EdgeKind → Int
  | push => 1
  | pop => -1
  | call | interrupt => 2
  | _ => 0

/-- The name of a kind. -/
def name : EdgeKind → String
  | normal => "NORMAL"
  | push => "PUSH"
  | pop => "POP"
  | call => "CALL"
  | interrupt => "INT"
  | ret => "RET"
  | reti => "RETI"
  | special => "SPECIAL"

/-- The name of the kind with a number; numbers beyond the last are shown as such. -/
def nameOf (code : Nat) : String :=
  match ofCode? code with
  | some k => k.name
  | none => "edge(" ++ Text.decimal code ++ ")"

/-- The edge enters a callee or a handler, so that a return comes back to its source. -/
def entersFrame : EdgeKind → Bool
  | call | interrupt => true
  | _ => false

end EdgeKind

/-- How the instruction of a state ends. -/
inductive StateKind where
  /-- Not in a return. -/
  | normal
  /-- In a return. -/
  | ret
  /-- In a return from an interrupt. -/
  | reti
deriving DecidableEq, Inhabited

namespace StateKind

/-- The kind with a number; every other number stands for `normal`. -/
def ofCode (n : Nat) : StateKind := if n = 1 then ret else if n = 2 then reti else normal

/-- The name of a kind. -/
def name : StateKind → String
  | normal => "NORMAL"
  | ret => "RET"
  | reti => "RETI"

end StateKind

/-- A transition between two states. -/
@[ext]
structure Edge where
  /-- The state it leaves. -/
  source : StateId
  /-- The state it enters. -/
  target : StateId
  /-- What happens on it. -/
  kind : EdgeKind
deriving DecidableEq, Inhabited

/-- The bytes pushed on the edge. -/
def Edge.weight (e : Edge) : Int := e.kind.weight

end StackDepth
