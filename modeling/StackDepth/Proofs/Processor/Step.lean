import Mathlib
import StackDepth.Machine
import StackDepth.Program.Basic
import StackDepth.State.Interrupt

/-!
# The concrete processor

The concrete arithmetic unit with the two interrupt masks, a program counter, the height of the stack and
the frames that are pending. What is not tracked is left open: a popped byte and a byte from any other port
are arbitrary, an indirect transfer goes to any target that is recorded for it, and an enabled interrupt
may fire before any instruction.

A frame keeps the address at which it resumes and, for statements about runs, the height below it. A
return takes two bytes off the stack, whatever has been pushed since the frame was entered.
-/

namespace StackDepth

/-- A call or an interrupt that has not returned. -/
structure Processor.Pending where
  /-- The address at which execution goes on. -/
  resume : Address
  /-- The height of the stack when it was entered. -/
  level : Int

/-- The concrete state of a processor. -/
structure Processor where
  /-- The registers and the status register. -/
  machine : Machine
  /-- The mask of the external interrupts. -/
  eimsk : Byte
  /-- The mask of the timer interrupts. -/
  timsk : Byte
  /-- The program counter. -/
  pc : Address
  /-- The number of bytes on the stack. -/
  height : Int
  /-- The calls and interrupts that have not returned, the latest first. -/
  frames : List Processor.Pending

namespace Processor

/-- The address behind an instruction that stands at the program counter. -/
def behind (m : Processor) (i : Instruction) : Address := m.pc + BitVec.ofNat 16 i.size

/-- The byte of a tracked port. -/
def port? (m : Processor) (a : Int) : Option Byte :=
  if a = portSreg then some m.machine.sreg
  else if a = portEimsk then some m.eimsk
  else if a = portTimsk then some m.timsk
  else none

/-- Stores a byte into a port; what goes to other ports is not tracked. -/
def setPort (m : Processor) (a : Int) (b : Byte) : Processor :=
  if a = portSreg then { m with machine := { m.machine with sreg := b } }
  else if a = portEimsk then { m with eimsk := b }
  else if a = portTimsk then { m with timsk := b }
  else m

/-- Whether a skip leaves out the next instruction. -/
def skips? (m : Processor) (i : Instruction) : Option Bool :=
  match i.op with
  | .CPSE => some (m.machine.reg i.rd == m.machine.reg i.rr)
  | .SBRC => some (!(m.machine.reg i.rr).getLsbD i.bit)
  | .SBRS => some ((m.machine.reg i.rr).getLsbD i.bit)
  | _ => none

/-- Interrupts are enabled, and interrupt `num` is not masked. -/
def MayFire (m : Processor) (num : Nat) : Prop :=
  m.machine.flag Flag.I = true ∧
    ∃ n < 8, m.eimsk.getLsbD n = true ∧ num = n + 2 ∨ m.timsk.getLsbD n = true ∧ num = 17 - n

/-- Goes to `target` in a frame of its own, which resumes at `resume`. -/
def enter (m : Processor) (target resume : Address) : Processor :=
  { m with pc := target, height := m.height + 2, frames := ⟨resume, m.height⟩ :: m.frames }

/-- One step of a processor that runs a program. -/
inductive Step (p : Program) (vectors : Int) : Processor → Processor → Prop where
  | interrupt {m : Processor} {num : Nat} (hfire : m.MayFire num) :
      Step p vectors m
        { m.enter (vectorAddress num vectors) m.pc with machine := m.machine.setFlag Flag.I false }
  | alu {m : Processor} {i : Instruction} {n : Machine} (hi : p.flash.fetch m.pc = .ok i)
      (hop : i.op ∈ Machine.modelled) (hstep : m.machine.step i = (n, .done)) :
      Step p vectors m { m with machine := n, pc := m.behind i }
  | flag {m : Processor} {i : Instruction} {n : Nat} {b : Bool} (hi : p.flash.fetch m.pc = .ok i)
      (hop : i.op.flagAction? = some (n, b)) :
      Step p vectors m { m with machine := m.machine.setFlag n b, pc := m.behind i }
  | idle {m : Processor} {i : Instruction} (hi : p.flash.fetch m.pc = .ok i)
      (hop : i.op ∈ [.NOP, .WDR, .SLEEP]) : Step p vectors m { m with pc := m.behind i }
  | branch {m : Processor} {i : Instruction} {n : Nat} {b : Bool} (hi : p.flash.fetch m.pc = .ok i)
      (hop : i.branchTest? = some (n, b)) :
      Step p vectors m
        { m with pc := if m.machine.flag n = b then relativeTarget m.pc i.k else m.behind i }
  | skip {m : Processor} {i : Instruction} {a : Address} (hi : p.flash.fetch m.pc = .ok i)
      (hop : m.skips? i = some true) (ha : p.flash.next (m.behind i) = .ok a) :
      Step p vectors m { m with pc := a }
  | noSkip {m : Processor} {i : Instruction} (hi : p.flash.fetch m.pc = .ok i)
      (hop : m.skips? i = some false) : Step p vectors m { m with pc := m.behind i }
  | relativeJump {m : Processor} {i : Instruction} (hi : p.flash.fetch m.pc = .ok i)
      (hop : i.op = .RJMP) : Step p vectors m { m with pc := relativeTarget m.pc i.k }
  | jump {m : Processor} {i : Instruction} (hi : p.flash.fetch m.pc = .ok i) (hop : i.op = .JMP) :
      Step p vectors m { m with pc := absoluteTarget i.k }
  | indirectJump {m : Processor} {i : Instruction} {targets : List Address} {a : Address}
      (hi : p.flash.fetch m.pc = .ok i) (hop : i.op = .IJMP) (htargets : p.targets? m.pc = some targets)
      (ha : a ∈ targets) : Step p vectors m { m with pc := a }
  | relativeCall {m : Processor} {i : Instruction} (hi : p.flash.fetch m.pc = .ok i)
      (hop : i.op = .RCALL) : Step p vectors m (m.enter (relativeTarget m.pc i.k) (m.behind i))
  | call {m : Processor} {i : Instruction} (hi : p.flash.fetch m.pc = .ok i) (hop : i.op = .CALL) :
      Step p vectors m (m.enter (absoluteTarget i.k) (m.behind i))
  | indirectCall {m : Processor} {i : Instruction} {targets : List Address} {a : Address}
      (hi : p.flash.fetch m.pc = .ok i) (hop : i.op = .ICALL) (htargets : p.targets? m.pc = some targets)
      (ha : a ∈ targets) : Step p vectors m (m.enter a (m.behind i))
  | ret {m : Processor} {i : Instruction} {f : Pending} {fs : List Pending}
      (hi : p.flash.fetch m.pc = .ok i) (hop : i.op = .RET) (hframes : m.frames = f :: fs) :
      Step p vectors m { m with pc := f.resume, height := m.height - 2, frames := fs }
  | reti {m : Processor} {i : Instruction} {f : Pending} {fs : List Pending}
      (hi : p.flash.fetch m.pc = .ok i) (hop : i.op = .RETI) (hframes : m.frames = f :: fs) :
      Step p vectors m
        { m with
          machine := m.machine.setFlag Flag.I true
          pc := f.resume
          height := m.height - 2
          frames := fs }
  | push {m : Processor} {i : Instruction} (hi : p.flash.fetch m.pc = .ok i) (hop : i.op = .PUSH) :
      Step p vectors m { m with pc := m.behind i, height := m.height + 1 }
  | pop {m : Processor} {i : Instruction} (b : Byte) (hi : p.flash.fetch m.pc = .ok i)
      (hop : i.op = .POP) :
      Step p vectors m
        { m with machine := m.machine.setReg i.rd b, pc := m.behind i, height := m.height - 1 }
  | input {m : Processor} {i : Instruction} {b : Byte} (hi : p.flash.fetch m.pc = .ok i)
      (hop : i.op = .IN) (hb : ∀ c ∈ m.port? i.k, b = c) :
      Step p vectors m { m with machine := m.machine.setReg i.rd b, pc := m.behind i }
  | output {m : Processor} {i : Instruction} (hi : p.flash.fetch m.pc = .ok i) (hop : i.op = .OUT) :
      Step p vectors m { m.setPort i.k (m.machine.reg i.rr) with pc := m.behind i }

/-- The processor stands at a start state: it has one of the values that the state leaves open, and
nothing on the stack. -/
structure StartsAt (m : Processor) (s : State) : Prop where
  /-- The state covers the registers and flags. -/
  machine : m.machine.CoveredBy s
  /-- The state covers the mask of the external interrupts. -/
  eimsk : s.eimsk.Covers m.eimsk
  /-- The state covers the mask of the timer interrupts. -/
  timsk : s.timsk.Covers m.timsk
  /-- The program counters agree. -/
  pc : m.pc = s.pc
  /-- The stack is empty. -/
  height : m.height = 0
  /-- Nothing is called. -/
  frames : m.frames = []

/-- A step that returns leaves no more on the stack than there was when the frame was entered. -/
def Settles (m n : Processor) : Prop := ∀ f, m.frames = f :: n.frames → n.height ≤ f.level

end Processor

end StackDepth
