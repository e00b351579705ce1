import Mathlib
import StackDepth.Assembly.Assemble

/-!
# Operand ranges

`Instruction.Encodable` collects what the assembler checks of the operands of an opcode, by the form of
the opcode: which fields the form uses, and the range of each of them. All other fields are zero. Two of
the ranges depend on the opcode beside its form: `encodable_twoRegisters_iff` and `encodable_relative_iff`
tell them in numbers.
-/

namespace StackDepth

/-! ### Limits -/

namespace Assembly

theorem distanceLimit_eq (op : Opcode) :
    distanceLimit op = if op ∈ [.RJMP, .RCALL] then 2048 else 64 := by
  cases op <;> rfl

end Assembly

/-! ### Ranges -/

namespace Instruction

/-- The operands lie in the ranges of the form of the opcode, and unused fields are zero. -/
def Encodable (i : Instruction) : Prop :=
  match i.op.form with
  | .bare => i = { op := i.op }
  | .twoRegisters =>
      i = { op := i.op, rd := i.rd, rr := i.rr } ∧ i.rd < 32 ∧ i.rr < 32 ∧
        ∀ last ∈ Assembly.upperLimit? i.op, 16 ≤ i.rd ∧ i.rd ≤ last ∧ 16 ≤ i.rr ∧ i.rr ≤ last
  | .pairs =>
      i = { op := i.op, rd := i.rd, rr := i.rr } ∧ i.rd < 32 ∧ i.rr < 32 ∧ i.rd % 2 = 0 ∧ i.rr % 2 = 0
  | .oneRegister => i = { op := i.op, rd := i.rd } ∧ i.rd < 32 ∧ (i.op = .SER → 16 ≤ i.rd)
  | .immediate =>
      i = { op := i.op, rd := i.rd, k := i.k } ∧ 16 ≤ i.rd ∧ i.rd < 32 ∧ 0 ≤ i.k ∧ i.k ≤ 255
  | .wordImmediate =>
      i = { op := i.op, rd := i.rd, k := i.k } ∧ 24 ≤ i.rd ∧ i.rd < 32 ∧ i.rd % 2 = 0 ∧ 0 ≤ i.k ∧
        i.k ≤ 63
  | .relative =>
      i = { op := i.op, k := i.k } ∧ -Assembly.distanceLimit i.op ≤ i.k ∧
        i.k < Assembly.distanceLimit i.op
  | .absolute => i = { op := i.op, k := i.k } ∧ 0 ≤ i.k ∧ i.k ≤ 0x7FFF
  | .flagRelative =>
      i = { op := i.op, k := i.k, bit := i.bit } ∧ i.bit < 8 ∧ -64 ≤ i.k ∧ i.k < 64
  | .portIn => i = { op := i.op, rd := i.rd, k := i.k } ∧ i.rd < 32 ∧ 0 ≤ i.k ∧ i.k ≤ 63
  | .portOut => i = { op := i.op, rr := i.rr, k := i.k } ∧ i.rr < 32 ∧ 0 ≤ i.k ∧ i.k ≤ 63
  | .portBit => i = { op := i.op, k := i.k, bit := i.bit } ∧ 0 ≤ i.k ∧ i.k ≤ 31 ∧ i.bit < 8
  | .registerBit => i = { op := i.op, rr := i.rr, bit := i.bit } ∧ i.rr < 32 ∧ i.bit < 8
  | .flag => i = { op := i.op, bit := i.bit } ∧ i.bit < 8
  | .load =>
      i = { op := i.op, rd := i.rd, rr := i.rr } ∧ i.rd < 32 ∧ i.rr ∈ [regX, regY, regZ]
  | .loadOffset =>
      i = { op := i.op, rd := i.rd, rr := i.rr, k := i.k } ∧ i.rd < 32 ∧ i.rr ∈ [regY, regZ] ∧
        0 ≤ i.k ∧ i.k ≤ 63
  | .store =>
      i = { op := i.op, rd := i.rd, rr := i.rr } ∧ i.rr < 32 ∧ i.rd ∈ [regX, regY, regZ]
  | .storeOffset =>
      i = { op := i.op, rd := i.rd, rr := i.rr, k := i.k } ∧ i.rr < 32 ∧ i.rd ∈ [regY, regZ] ∧
        0 ≤ i.k ∧ i.k ≤ 63
  | .loadDirect => i = { op := i.op, rd := i.rd, k := i.k } ∧ i.rd < 32 ∧ 0 ≤ i.k ∧ i.k ≤ 0xFFFF
  | .storeDirect => i = { op := i.op, rr := i.rr, k := i.k } ∧ i.rr < 32 ∧ 0 ≤ i.k ∧ i.k ≤ 0xFFFF
  | .throughZ => i = { op := i.op, rd := i.rd, rr := regZ } ∧ i.rd < 32

/-- A relative jump or call goes at most 2048 words, and a branch on a flag at most 64. -/
theorem encodable_relative_iff {i : Instruction} (hform : i.op.form = .relative) :
    i.Encodable ↔ i = { op := i.op, k := i.k } ∧
      if i.op ∈ [.RJMP, .RCALL] then -2048 ≤ i.k ∧ i.k < 2048 else -64 ≤ i.k ∧ i.k < 64 := by
  simp only [Encodable, hform, Assembly.distanceLimit_eq]
  split <;> rfl

/-- The status bit that a branch tests is fixed by its opcode, or it is the bit number of the branch. -/
theorem branchTest_cases {i : Instruction} {n : Nat} {b : Bool} (hop : i.branchTest? = some (n, b)) :
    n < 8 ∨ i.op.form = .flagRelative ∧ n = i.bit := by
  obtain ⟨op, rd, rr, k, bit⟩ := i
  cases op
  case BRBS | BRBC =>
    obtain ⟨rfl, -⟩ := Prod.mk.inj (Option.some.inj hop)
    exact .inr ⟨rfl, rfl⟩
  all_goals cases hop <;> exact .inl (by decide)

/-- The status bit that a branch tests is one of the eight. -/
theorem Encodable.branchTest_lt {i : Instruction} (hi : i.Encodable) {n : Nat} {b : Bool}
    (hop : i.branchTest? = some (n, b)) : n < 8 := by
  rcases branchTest_cases hop with hlt | ⟨hform, rfl⟩
  · exact hlt
  · simp only [Encodable, hform] at hi
    exact hi.2.1

end Instruction

end StackDepth
