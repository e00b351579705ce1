import Mathlib
import StackDepth.Proofs.Instruction.Encodable
import StackDepth.Proofs.Program.Flash

/-!
# Ranges of assembled instructions

The assembler checks operands one by one, and the instruction that it builds from them is encodable.
Placing an instruction adds it to the image and keeps those that were placed before, so every
instruction of an assembled program is encodable. Loads and stores through a pointer are left out here:
their displacement depends on which variant of the mnemonic was picked.

Main statements:

* `Assembly.encodable_encode`: what the operands of one instruction satisfy;
* `Assembly.isEncodable_assemble`: so are the instructions of an assembled program.
-/

namespace StackDepth

/-- The form has a pointer operand with a displacement. -/
def Form.takesPointer : Form → Bool
  | .load | .loadOffset | .store | .storeOffset => true
  | _ => false

/-- The instruction is encodable unless it has a pointer operand. -/
abbrev Instruction.InRange (i : Instruction) : Prop := i.op.form.takesPointer = false → i.Encodable

theorem plain_of_branchTest {i : Instruction} {n : Nat} {b : Bool} (hop : i.branchTest? = some (n, b)) :
    i.op.form.takesPointer = false := by
  obtain ⟨op, rd, rr, k, bit⟩ := i
  cases op <;> first | rfl | exact absurd hop (by simp [Instruction.branchTest?, Opcode.flagTest?])

/-- Every instruction that has no pointer operand is encodable. -/
def Program.IsEncodable (p : Program) : Prop :=
  ∀ pc i, p.flash.fetch pc = .ok i → i.op.form.takesPointer = false → i.Encodable

namespace Assembly

variable {labels : Labels} {s : String}

/-- A computation that gives a result passes through the result of its first step. -/
theorem exists_of_bind_ok {ε α β : Type} {x : Except ε α} {f : α → Except ε β} {b : β}
    (h : (x >>= f) = .ok b) : ∃ a, x = .ok a ∧ f a = .ok b := by
  cases x with
  | error e => exact absurd h (by simp [bind, Except.bind])
  | ok a => exact ⟨a, rfl, h⟩

theorem exists_of_map_ok {ε α β : Type} {x : Except ε α} {f : α → β} {b : β}
    (h : x.map f = .ok b) : ∃ a, x = .ok a ∧ f a = b := by
  cases x with
  | error e => exact absurd h (by simp [Except.map])
  | ok a => exact ⟨a, rfl, Except.ok.inj h⟩

/-! ### Single operands -/

theorem of_require {p : Bool} {e : OperandError} {u : Unit} (h : require p e = .ok u) : p = true := by
  unfold require at h
  split at h
  · assumption
  · cases h

theorem registerAlias_lt {r : Nat} (h : registerAlias? s = some r) : r < 32 := by
  unfold registerAlias? at h
  split at h <;> simp_all <;> omega

theorem registerNumber_lt {cs : List Char} {r : Nat} (h : registerNumber? cs = some r) : r < 32 := by
  unfold registerNumber? at h
  split at h
  · split at h
    · cases h
    · split at h
      · split at h
        · cases h
          omega
        · cases h
      · cases h
  · cases h

theorem register_lt {r : Nat} (h : register s = .ok r) : r < 32 := by
  unfold register at h
  dsimp only at h
  split at h
  · next halias =>
    cases h
    exact registerAlias_lt halias
  · split at h
    · next hnumber =>
      cases h
      exact registerNumber_lt hnumber
    · cases h

theorem constantIn_range {low high v : Int} (h : constantIn labels s low high = .ok v) :
    low ≤ v ∧ v ≤ high := by
  obtain ⟨a, -, h⟩ := exists_of_bind_ok h
  split at h
  · next hrange =>
    cases h
    exact hrange
  · cases h

theorem bitNumber_lt {n : Nat} (h : bitNumber labels s = .ok n) : n < 8 := by
  obtain ⟨v, hv, rfl⟩ := exists_of_map_ok h
  have hrange := constantIn_range hv
  omega

theorem checked_range {x : Except OperandError Int} {limit k : Int} {e : OperandError}
    (h : (do let k ← x; if -limit ≤ k ∧ k < limit then .ok k else .error e) = .ok k) :
    -limit ≤ k ∧ k < limit := by
  obtain ⟨a, -, h⟩ := exists_of_bind_ok h
  split at h
  · next hrange =>
    cases h
    exact hrange
  · cases h

theorem relativeWords_range {pc : Address} {limit k : Int}
    (h : relativeWords labels s pc limit = .ok k) : -limit ≤ k ∧ k < limit := by
  unfold relativeWords at h
  dsimp only at h
  split at h
  · split at h
    · exact checked_range h
    · split at h
      · exact checked_range h
      · exact checked_range h
  · obtain ⟨t, -, h⟩ := exists_of_bind_ok h
    split at h
    · exact checked_range h
    · exact checked_range h

theorem absoluteWord_range {k : Int} (h : absoluteWord labels s = .ok k) : 0 ≤ k ∧ k ≤ 0x7FFF := by
  obtain ⟨a, ha, h⟩ := exists_of_bind_ok h
  have hrange := constantIn_range ha
  split at h
  · cases h
    omega
  · cases h

/-! ### One instruction -/

/-- The operands of an instruction lie in the ranges of its form. The cases are the forms with the right
number of operands. -/
theorem encodable_encode {pc : Address} {op : Opcode} {operands : List String} {i : Instruction}
    (h : encode labels pc op operands = .ok i) :
    i.op = op ∧ (op.form.takesPointer = false → i.Encodable) := by
  unfold encode at h
  split at h
  case h_1 hf =>
    cases h
    exact ⟨rfl, fun _ => by simp [Instruction.Encodable, hf]⟩
  case h_3 hf =>
    obtain ⟨rd, hrd, h⟩ := exists_of_bind_ok h
    obtain ⟨rr, hrr, h⟩ := exists_of_bind_ok h
    split at h
    · next hlimit =>
      cases h
      refine ⟨rfl, fun _ => ?_⟩
      simp [Instruction.Encodable, hf, register_lt hrd, register_lt hrr, hlimit]
    · next last hlimit =>
      obtain ⟨u, hupper, h⟩ := exists_of_bind_ok h
      have hupper := of_require hupper
      simp only [Bool.and_eq_true, decide_eq_true_eq] at hupper
      cases h
      refine ⟨rfl, fun _ => ?_⟩
      simp only [Instruction.Encodable, hf, hlimit, Option.mem_def, Option.some.injEq]
      refine ⟨trivial, register_lt hrd, register_lt hrr, ?_⟩
      rintro last rfl
      exact ⟨hupper.1.1.1, hupper.1.1.2, hupper.1.2, hupper.2⟩
  case h_4 hf =>
    obtain ⟨rd, hrd, h⟩ := exists_of_bind_ok h
    obtain ⟨rr, hrr, h⟩ := exists_of_bind_ok h
    obtain ⟨u, heven, h⟩ := exists_of_bind_ok h
    have heven := of_require heven
    simp only [Bool.and_eq_true, beq_iff_eq] at heven
    cases h
    refine ⟨rfl, fun _ => ?_⟩
    simp only [Instruction.Encodable, hf]
    exact ⟨trivial, register_lt hrd, register_lt hrr, heven⟩
  case h_5 hf =>
    obtain ⟨rd, hrd, h⟩ := exists_of_bind_ok h
    obtain ⟨u, hser, h⟩ := exists_of_bind_ok h
    have hser := of_require hser
    simp only [Bool.or_eq_true, decide_eq_true_eq] at hser
    cases h
    refine ⟨rfl, fun _ => ?_⟩
    simp only [Instruction.Encodable, hf]
    exact ⟨trivial, register_lt hrd, fun hop => hser.resolve_left (not_not_intro hop)⟩
  case h_7 hf =>
    obtain ⟨rd, hrd, h⟩ := exists_of_bind_ok h
    obtain ⟨u, hupper, h⟩ := exists_of_bind_ok h
    have hupper := of_require hupper
    rw [decide_eq_true_eq] at hupper
    obtain ⟨k, -, h⟩ := exists_of_bind_ok h
    cases h
    refine ⟨rfl, fun _ => ?_⟩
    simp only [Instruction.Encodable, hf]
    exact ⟨trivial, hupper, register_lt hrd, by omega, by omega⟩
  case h_8 hf =>
    obtain ⟨rd, hrd, h⟩ := exists_of_bind_ok h
    obtain ⟨u, hword, h⟩ := exists_of_bind_ok h
    have hword := of_require hword
    simp only [Bool.and_eq_true, decide_eq_true_eq, beq_iff_eq] at hword
    obtain ⟨k, hk, h⟩ := exists_of_bind_ok h
    cases h
    refine ⟨rfl, fun _ => ?_⟩
    simp only [Instruction.Encodable, hf]
    exact ⟨trivial, hword.1, register_lt hrd, hword.2, constantIn_range hk⟩
  case h_9 hf =>
    obtain ⟨k, hk, h⟩ := exists_of_bind_ok h
    cases h
    refine ⟨rfl, fun _ => ?_⟩
    simp only [Instruction.Encodable, hf]
    exact ⟨trivial, relativeWords_range hk⟩
  case h_11 hf =>
    obtain ⟨k, hk, h⟩ := exists_of_bind_ok h
    cases h
    refine ⟨rfl, fun _ => ?_⟩
    simp only [Instruction.Encodable, hf]
    exact ⟨trivial, absoluteWord_range hk⟩
  case h_13 hf =>
    obtain ⟨bit, hbit, h⟩ := exists_of_bind_ok h
    obtain ⟨k, hk, h⟩ := exists_of_bind_ok h
    cases h
    refine ⟨rfl, fun _ => ?_⟩
    simp only [Instruction.Encodable, hf]
    exact ⟨trivial, bitNumber_lt hbit, relativeWords_range hk⟩
  case h_14 hf =>
    obtain ⟨rd, hrd, h⟩ := exists_of_bind_ok h
    obtain ⟨k, hk, h⟩ := exists_of_bind_ok h
    cases h
    refine ⟨rfl, fun _ => ?_⟩
    simp only [Instruction.Encodable, hf]
    exact ⟨trivial, register_lt hrd, constantIn_range hk⟩
  case h_15 hf =>
    obtain ⟨k, hk, h⟩ := exists_of_bind_ok h
    obtain ⟨rr, hrr, h⟩ := exists_of_bind_ok h
    cases h
    refine ⟨rfl, fun _ => ?_⟩
    simp only [Instruction.Encodable, hf]
    exact ⟨trivial, register_lt hrr, constantIn_range hk⟩
  case h_16 hf =>
    obtain ⟨k, hk, h⟩ := exists_of_bind_ok h
    obtain ⟨bit, hbit, h⟩ := exists_of_bind_ok h
    cases h
    refine ⟨rfl, fun _ => ?_⟩
    simp only [Instruction.Encodable, hf]
    exact ⟨trivial, (constantIn_range hk).1, (constantIn_range hk).2, bitNumber_lt hbit⟩
  case h_17 hf =>
    obtain ⟨rr, hrr, h⟩ := exists_of_bind_ok h
    obtain ⟨bit, hbit, h⟩ := exists_of_bind_ok h
    cases h
    refine ⟨rfl, fun _ => ?_⟩
    simp only [Instruction.Encodable, hf]
    exact ⟨trivial, register_lt hrr, bitNumber_lt hbit⟩
  case h_18 hf =>
    obtain ⟨bit, hbit, h⟩ := exists_of_bind_ok h
    cases h
    refine ⟨rfl, fun _ => ?_⟩
    simp only [Instruction.Encodable, hf]
    exact ⟨trivial, bitNumber_lt hbit⟩
  case h_24 hf =>
    obtain ⟨rd, hrd, h⟩ := exists_of_bind_ok h
    obtain ⟨k, hk, h⟩ := exists_of_bind_ok h
    cases h
    refine ⟨rfl, fun _ => ?_⟩
    simp only [Instruction.Encodable, hf]
    exact ⟨trivial, register_lt hrd, constantIn_range hk⟩
  case h_25 hf =>
    obtain ⟨k, hk, h⟩ := exists_of_bind_ok h
    obtain ⟨rr, hrr, h⟩ := exists_of_bind_ok h
    cases h
    refine ⟨rfl, fun _ => ?_⟩
    simp only [Instruction.Encodable, hf]
    exact ⟨trivial, register_lt hrr, constantIn_range hk⟩
  case h_26 hf =>
    obtain ⟨rd, hrd, h⟩ := exists_of_bind_ok h
    cases h
    refine ⟨rfl, fun _ => ?_⟩
    simp only [Instruction.Encodable, hf]
    exact ⟨trivial, register_lt hrd⟩
  case h_20 hf | h_21 hf =>
    obtain ⟨rd, -, h⟩ := exists_of_bind_ok h
    obtain ⟨p, -, h⟩ := exists_of_bind_ok h
    cases h
    exact ⟨rfl, fun hform => absurd hform (by simp [hf, Form.takesPointer])⟩
  case h_22 hf | h_23 hf =>
    obtain ⟨p, -, h⟩ := exists_of_bind_ok h
    obtain ⟨rr, -, h⟩ := exists_of_bind_ok h
    cases h
    exact ⟨rfl, fun hform => absurd hform (by simp [hf, Form.takesPointer])⟩
  all_goals cases h

/-! ### Whole programs -/

/-- What every step keeps is kept by a fold that succeeds. -/
theorem of_foldlM_ok {ε α β : Type} {step : β → α → Except ε β} {Q : β → Prop} {as : List α}
    (hstep : ∀ b c a, a ∈ as → Q b → step b a = .ok c → Q c) {b c : β} (hb : Q b)
    (h : as.foldlM step b = .ok c) : Q c := by
  induction as generalizing b with
  | nil =>
    obtain rfl : b = c := Except.ok.inj h
    exact hb
  | cons a as ih =>
    rw [List.foldlM_cons] at h
    obtain ⟨d, hd, h⟩ := exists_of_bind_ok h
    exact ih (fun b c x hx => hstep b c x (List.mem_cons_of_mem a hx))
      (hstep b d a List.mem_cons_self hb hd) h

theorem placePending_eq_ok_iff {f g : Flash} {p : Pending} : placePending labels f p = .ok g ↔
    ∃ i, encode labels p.pc p.op p.operands = .ok i ∧ f.place p.pc i = .ok g := by
  unfold placePending
  cases encode labels p.pc p.op p.operands with
  | error e => simp
  | ok i =>
    simp only [Except.ok.injEq, exists_eq_left']
    cases f.place p.pc i <;> simp

/-- The image holds nothing but what was placed. -/
theorem exists_pending {ps : List Pending} {f : Flash} {w : Nat} {i : Instruction}
    (h : ps.foldlM (placePending labels) .empty = .ok f) (hi : f.at? w = some i) :
    ∃ p ∈ ps, encode labels p.pc p.op p.operands = .ok i := by
  refine of_foldlM_ok (Q := fun g => ∀ w i, g.at? w = some i →
    ∃ p ∈ ps, encode labels p.pc p.op p.operands = .ok i) ?_ ?_ h w i hi
  · intro f g p hp hf hplace w i hi
    obtain ⟨j, hj, hplace⟩ := placePending_eq_ok_iff.mp hplace
    obtain ⟨-, -, -, rfl⟩ := Flash.place_eq_ok_iff.mp hplace
    rw [Flash.at?_stored] at hi
    split at hi
    · obtain rfl := Option.some.inj hi
      exact ⟨p, hp, hj⟩
    · exact hf w i hi
  · intro w i hi
    simp at hi

theorem at_of_fetch {f : Flash} {pc : Address} {i : Instruction} (h : f.fetch pc = .ok i) :
    ∃ w, f.at? w = some i := by
  unfold Flash.fetch at h
  split at h
  · cases h
  · split at h
    · cases h
    · split at h
      · next hat =>
        cases h
        exact ⟨_, hat⟩
      · cases h

/-- The instructions of an assembled program are encodable. -/
theorem isEncodable_assemble {text : String} {p : Program} (h : assemble text = .ok p) :
    p.IsEncodable := by
  intro pc i hi hform
  obtain ⟨layout, -, h⟩ := exists_of_bind_ok h
  obtain ⟨flash, hflash, h⟩ := exists_of_bind_ok h
  cases h
  obtain ⟨w, hw⟩ := at_of_fetch hi
  obtain ⟨pending, -, hencode⟩ := exists_pending hflash hw
  obtain ⟨hop, hencodable⟩ := encodable_encode hencode
  exact hencodable (hop ▸ hform)

end Assembly

end StackDepth
