import StackDepth.State.Basic
import StackDepth.Text.Pad

/-!
# Effects of an instruction

Executing an instruction leaves a state and says what becomes of it. For `next`, `push` and `pop` the
state left is the successor, program counter included. For every other effect the program counter still
points at the instruction, and the caller decides what follows.
-/

namespace StackDepth

/-- Why there is no instruction at an address. -/
inductive FetchError where
  /-- The address is not below the end of the program. -/
  | pastEnd (pc : Address) (finish : Nat)
  /-- No instruction starts at the address. -/
  | unaligned (pc : Address)
  /-- There is no instruction stream at all. -/
  | noStream (pc : Address)
deriving DecidableEq, Inhabited

/-- The text of a failed fetch. -/
def FetchError.message : FetchError → String
  | .pastEnd pc finish =>
      "read past end of program: " ++ Text.hex4 pc.toNat ++ " (end " ++ Text.hex4 finish ++ ")"
  | .unaligned pc => "misaligned instruction fetch: no instruction starts at " ++ Text.hex4 pc.toNat
  | .noStream pc => "no instruction stream at " ++ Text.hex4 pc.toNat

/-- Where the instruction after the one at an address starts. -/
abbrev NextAddress := Address → Except FetchError Address

/-- Why an instruction cannot be executed. -/
inductive StepError where
  /-- The catalogue does not know the number at the address. -/
  | unsupported (code : Nat) (pc : Address)
  /-- The instruction to skip cannot be fetched. -/
  | skip (pc : Address) (cause : FetchError)
deriving DecidableEq, Inhabited

/-- The text of a failed step. -/
def StepError.message : StepError → String
  | .unsupported code pc =>
      "unsupported instruction: opcode " ++ Text.decimal code ++ " at " ++ Text.hex4 pc.toNat
  | .skip pc cause => "skip at " ++ Text.hex4 pc.toNat ++ ": " ++ cause.message

/-- What becomes of the state that an instruction leaves. -/
inductive Effect where
  /-- The state is the successor; a branch that may be taken adds a second one. -/
  | next (taken : Option State)
  /-- The state is the successor and one byte was pushed. -/
  | push
  /-- The state is the successor and one byte was popped. -/
  | pop
  /-- There is no successor. -/
  | halt
  /-- A call of the instruction at `target`. -/
  | call (target : Address)
  /-- A call through a pointer. -/
  | indirectCall
  /-- A jump through a pointer. -/
  | indirectJump
  /-- A return. -/
  | ret
  /-- A return from an interrupt. -/
  | reti
deriving DecidableEq, Inhabited

namespace Effect

/-- The names of the effects in the order of their numbers. -/
def names : List String := ["continue", "push", "pop", "halt", "call", "icall", "ijmp", "ret", "reti"]

/-- The number of an effect. -/
def code : Effect → Nat
  | next _ => 0
  | push => 1
  | pop => 2
  | halt => 3
  | call _ => 4
  | indirectCall => 5
  | indirectJump => 6
  | ret => 7
  | reti => 8

/-- The name of the effect with a number; numbers beyond the last are shown as such. -/
def nameOf (code : Nat) : String := names.getD code ("effect(" ++ Text.decimal code ++ ")")

/-- The name of an effect. -/
def name (e : Effect) : String := nameOf e.code

/-- The caller, not the interpreter, finds the successors. -/
def isDelegated (e : Effect) : Bool := 3 ≤ e.code

/-- The second successor. -/
def taken? : Effect → Option State
  | next taken => taken
  | _ => none

end Effect

end StackDepth
