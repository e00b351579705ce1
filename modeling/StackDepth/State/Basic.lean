import StackDepth.Instruction.Basic
import StackDepth.Text.Hex
import StackDepth.Text.Split
import StackDepth.Tribyte.Text

/-!
# Abstract processor states

A state has a concrete program counter, the status register, the two interrupt masks and the 32
general registers, each a byte with unknown bits. Memory and the other ports are not part of it: they
read as unknown, and what is written to them is dropped.
-/

namespace StackDepth

/-! ### Positions in the status register -/

namespace Flag

/-- Carry. -/
abbrev C : Nat := 0

/-- Zero. -/
abbrev Z : Nat := 1

/-- Negative. -/
abbrev N : Nat := 2

/-- Overflow of two's complement. -/
abbrev V : Nat := 3

/-- Sign, the exclusive disjunction of `N` and `V`. -/
abbrev S : Nat := 4

/-- Half carry. -/
abbrev H : Nat := 5

/-- Bit copy. -/
abbrev T : Nat := 6

/-- Interrupt enable. -/
abbrev I : Nat := 7

/-- The letters of the positions from 0 up. -/
def names : List String := ["C", "Z", "N", "V", "S", "H", "T", "I"]

end Flag

/-! ### Ports and data addresses -/

/-- The port of the timer interrupt mask. -/
abbrev portTimsk : Int := 0x37

/-- The port of the external interrupt mask. -/
abbrev portEimsk : Int := 0x39

/-- The port of the status register. -/
abbrev portSreg : Int := 0x3F

/-- The data address of port 0. -/
abbrev portBase : Int := 0x20

/-- The number of ports. -/
abbrev portCount : Int := 0x40

/-- The number of general registers. -/
abbrev registerCount : Nat := 32

/-- An abstract state of the processor. -/
@[ext]
structure State where
  /-- The program counter, a byte address. -/
  pc : Address
  /-- The status register. -/
  sreg : Tribyte
  /-- The external interrupt mask. -/
  eimsk : Tribyte
  /-- The timer interrupt mask. -/
  timsk : Tribyte
  /-- The general registers. -/
  regs : Vector Tribyte registerCount
deriving DecidableEq, Inhabited

namespace State

/-- The state after reset: every tracked byte is known to be zero. -/
def reset : State :=
  { pc := 0#16, sreg := .zero, eimsk := .zero, timsk := .zero,
    regs := Vector.replicate registerCount .zero }

/-- The place of register number `r`; numbers are taken modulo the number of registers. -/
def place (r : Nat) : Fin registerCount := Fin.ofNat registerCount r

/-- A place is one of the registers. -/
theorem place_lt (r : Nat) : (place r).val < registerCount := (place r).isLt

/-- The value of register `r`. -/
def reg (s : State) (r : Nat) : Tribyte := s.regs.get (place r)

/-- Stores the canonical form of `v` into register `r`. -/
def setReg (s : State) (r : Nat) (v : Tribyte) : State :=
  { s with regs := s.regs.set (place r) v.canon (place_lt r) }

/-- Status bit `n` as a single-bit value. -/
def flag (s : State) (n : Nat) : Tribyte := s.sreg.bit n

/-- Replaces status bit `n`. -/
def setFlag (s : State) (n : Nat) (b : Tribyte) : State := { s with sreg := s.sreg.setBit n b }

/-- The value of a port; only three ports are tracked. -/
def port (s : State) (a : Int) : Tribyte :=
  if a = portSreg then s.sreg
  else if a = portEimsk then s.eimsk
  else if a = portTimsk then s.timsk
  else .unknown

/-- Stores the canonical form of `v` into a port. -/
def setPort (s : State) (a : Int) (v : Tribyte) : State :=
  if a = portSreg then { s with sreg := v.canon }
  else if a = portEimsk then { s with eimsk := v.canon }
  else if a = portTimsk then { s with timsk := v.canon }
  else s

/-- The value at a data address: registers and ports are mapped below the memory. -/
def data (s : State) (a : Int) : Tribyte :=
  if 0 ≤ a ∧ a < registerCount then s.reg a.toNat
  else if portBase ≤ a ∧ a < portBase + portCount then s.port (a - portBase)
  else .unknown

/-- Stores `v` at a data address. -/
def setData (s : State) (a : Int) (v : Tribyte) : State :=
  if 0 ≤ a ∧ a < registerCount then s.setReg a.toNat v
  else if portBase ≤ a ∧ a < portBase + portCount then s.setPort (a - portBase) v
  else s

/-- Every value of the state is canonical. -/
def Canonical (s : State) : Prop :=
  s.sreg.Canonical ∧ s.eimsk.Canonical ∧ s.timsk.Canonical ∧
    ∀ r : Fin registerCount, (s.regs.get r).Canonical

/-- The state on one line: the program counter, the three named registers, the general registers. -/
def render (s : State) : String :=
  "PC=" ++ Text.hex4 s.pc.toNat ++ " SREG=" ++ s.sreg.render ++ " EIMSK=" ++ s.eimsk.render ++
    " TIMSK=" ++ s.timsk.render ++ " " ++ Text.joinWith " " (s.regs.toList.map Tribyte.render)

end State

end StackDepth
