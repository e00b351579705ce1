import StackDepth.Machine
import StackDepth.SelfCheck.Case
import StackDepth.Transfer.Step
import StackDepth.Tribyte.Concretization

/-!
# Checking the transfer functions

A case is checked by running the instruction on the abstract state and on every concrete machine that
the state covers: each concrete result must be covered by the abstract one. The first result that is
not covered is the counterexample. `run` checks all cases of a list of opcodes and adds the counts up.
-/

namespace StackDepth

namespace SelfCheck

/-- What went wrong in a case. -/
inductive Trouble where
  /-- The instruction cannot be executed on an abstract state. -/
  | failed (error : StepError)
  /-- The instruction does not simply continue. -/
  | notStraight (effect : Effect)
  /-- The concrete model does not cover the instruction. -/
  | notModelled
  /-- A concrete result that the abstract one misses; no register means the status register. -/
  | missed (a b sreg : Byte) (reg : Option Nat) (want : Byte) (got : Tribyte)
deriving DecidableEq, Inhabited

/-- A case with what went wrong in it. -/
structure Counterexample where
  /-- The case. -/
  subject : Case
  /-- What went wrong. -/
  trouble : Trouble
deriving DecidableEq, Inhabited

/-- The text of a trouble that is not a missed result. -/
def Trouble.message : Trouble → String
  | .failed error => error.message
  | .notStraight effect => "not a straight-line instruction: " ++ effect.name
  | .notModelled => "no concrete model"
  | .missed .. => ""

/-- The text of a counterexample. -/
def Counterexample.render (c : Counterexample) : String :=
  c.subject.instr.disassemble ++
    match c.trouble with
    | .missed a b sreg reg want got =>
        " A=" ++ Text.hex2 a.toNat ++ " B=" ++ Text.hex2 b.toNat ++ " SREG=" ++
          Text.hex2 sreg.toNat ++ ": " ++
          (match reg with
            | some r => Instruction.registerText r
            | none => "SREG") ++
          " = " ++ Text.hex2 want.toNat ++ " not covered by " ++ got.render
    | trouble => ": " ++ trouble.message

/-- The first register of the machine, or else its status register, that the state does not cover. -/
def firstMissed (s : State) (m : Machine) : Option (Option Nat × Byte × Tribyte) :=
  match (List.finRange registerCount).find? fun r => ¬(s.regs.get r).Covers (m.regs.get r) with
  | some r => some (some r.val, m.regs.get r, s.regs.get r)
  | none => if s.sreg.Covers m.sreg then none else some (none, m.sreg, s.sreg)

/-- The concrete inputs of a case, in the order in which they are tried. When both operands are one
register, the second value is that of the first. -/
def inputs (c : Case) : List (Byte × Byte × Byte) :=
  let (ra, rb) := operandRegisters c.instr
  c.a.concretizations.flatMap fun a =>
    (if ra = rb then [a] else c.b.concretizations).flatMap fun b =>
      c.sreg.concretizations.map fun sreg => (a, b, sreg)

/-- The machine on which a concrete input runs. -/
def machineOf (ra rb : Nat) (a b sreg : Byte) : Machine :=
  (({ Machine.cleared with sreg }).setReg ra a).setReg rb b

/-- Why a check cannot be carried out: an operand register does not exist. -/
structure NoRegister where
deriving DecidableEq, Inhabited

/-- Runs the inputs one after the other until one is missed, counting those tried. -/
def tryInputs (c : Case) (s : State) (ra rb : Nat) :
    List (Byte × Byte × Byte) → Nat → Except NoRegister (Option Counterexample × Nat)
  | [], n => .ok (none, n)
  | (a, b, sreg) :: rest, n =>
      match (machineOf ra rb a b sreg).step c.instr with
      | (m, .done) =>
          match firstMissed s m with
          | none => tryInputs c s ra rb rest (n + 1)
          | some (reg, want, got) => .ok (some ⟨c, .missed a b sreg reg want got⟩, n + 1)
      | (_, .notModelled) => .ok (some ⟨c, .notModelled⟩, n + 1)
      | (_, .noRegister) => .error ⟨⟩

/-- Checks a case: the first counterexample, and the number of concrete inputs tried. -/
def check (c : Case) : Except NoRegister (Option Counterexample × Nat) :=
  match c.state.step (fun pc => .error (.noStream pc)) c.instr with
  | (_, .error e) => .ok (some ⟨c, .failed e⟩, 0)
  | (s, .ok (.next none)) =>
      let (ra, rb) := operandRegisters c.instr
      if ra < registerCount ∧ rb < registerCount then tryInputs c s ra rb (inputs c) 0
      else .error ⟨⟩
  | (_, .ok effect) => .ok (some ⟨c, .notStraight effect⟩, 0)

/-- The outcome of a self-check. -/
structure Summary where
  /-- The number of cases. -/
  cases : Nat
  /-- The number of concrete inputs tried. -/
  concretizations : Nat
  /-- The counterexamples in the order of the cases. -/
  counterexamples : List Counterexample
deriving Inhabited

/-- Adds the outcome of one case. -/
def Summary.record (s : Summary) (found : Option Counterexample) (n : Nat) : Summary :=
  { cases := s.cases + 1, concretizations := s.concretizations + n,
    counterexamples := s.counterexamples ++ found.toList }

/-- Checks every case of the opcodes over the samples; an empty list stands for the default. -/
def run (ops : List Opcode) (samples : List Tribyte) : Except NoRegister Summary :=
  let ops := if ops.isEmpty then Machine.modelled else ops
  let samples := if samples.isEmpty then defaultSamples else samples
  (cases ops samples).foldlM
    (fun summary c => (check c).map fun (found, n) => summary.record found n) ⟨0, 0, []⟩

end SelfCheck

end StackDepth
