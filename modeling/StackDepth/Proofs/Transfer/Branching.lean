import Mathlib
import StackDepth.Analysis.Code
import StackDepth.Proofs.Transfer.Soundness
import StackDepth.Proofs.Tribyte.Precision

/-!
# Conditional branches and skips

A conditional instruction goes one of two ways, and concrete registers, flags and the byte at a port say
which. The abstract state keeps exactly those ways that some bytes it covers go. The three-valued condition
is settled if and only if all covered bytes agree on it, so the state forks exactly when they disagree. Two
equal register numbers are left out: there the concrete comparison always holds, while the abstract one does
not see that it compares a byte with itself.

Main statements:

* `Machine.holds?`, `Machine.SendsTo`: the concrete condition, and where control goes;
* `State.Decides`: a three-valued condition that is settled exactly where the concrete one is;
* `State.exists_condition`: the condition of each instruction, and its target;
* `State.outcomes_of_conditional`: the states that a conditional instruction leaves.
-/

namespace StackDepth

/-- The opcodes that go one of two ways. -/
def Opcode.conditional : List Opcode := [
  .BRBS, .BRBC, .BREQ, .BRNE, .BRCS, .BRCC, .BRSH, .BRLO, .BRMI, .BRPL, .BRGE, .BRLT, .BRHS, .BRHC, .BRTS,
  .BRTC, .BRVS, .BRVC, .BRIE, .BRID, .CPSE, .SBRC, .SBRS, .SBIC, .SBIS]

namespace Machine

/-- Whether the condition of a conditional instruction holds; `port` is the byte at its port. -/
def holds? (m : Machine) (port : Byte) (i : Instruction) : Option Bool :=
  match i.op with
  | .BRBS => some (m.flag i.bit)
  | .BRBC => some (!m.flag i.bit)
  | .BREQ => some (m.flag Flag.Z)
  | .BRNE => some (!m.flag Flag.Z)
  | .BRCS | .BRLO => some (m.flag Flag.C)
  | .BRCC | .BRSH => some (!m.flag Flag.C)
  | .BRMI => some (m.flag Flag.N)
  | .BRPL => some (!m.flag Flag.N)
  | .BRLT => some (m.flag Flag.S)
  | .BRGE => some (!m.flag Flag.S)
  | .BRHS => some (m.flag Flag.H)
  | .BRHC => some (!m.flag Flag.H)
  | .BRTS => some (m.flag Flag.T)
  | .BRTC => some (!m.flag Flag.T)
  | .BRVS => some (m.flag Flag.V)
  | .BRVC => some (!m.flag Flag.V)
  | .BRIE => some (m.flag Flag.I)
  | .BRID => some (!m.flag Flag.I)
  | .CPSE => some (m.reg i.rd == m.reg i.rr)
  | .SBRC => some (!(m.reg i.rr).getLsbD i.bit)
  | .SBRS => some ((m.reg i.rr).getLsbD i.bit)
  | .SBIC => some (!port.getLsbD i.bit)
  | .SBIS => some (port.getLsbD i.bit)
  | _ => none

/-- Where a conditional instruction at `pc` sends control. A skip leaves out the next instruction, whatever
its size. -/
inductive SendsTo (p : Program) (m : Machine) (port : Byte) (i : Instruction) (pc : Address) : Address → Prop where
  | next (h : m.holds? port i = some false) : SendsTo p m port i pc (pc + BitVec.ofNat 16 i.size)
  | target (h : m.holds? port i = some true) (hop : i.op.isSkip = false) :
      SendsTo p m port i pc (relativeTarget pc i.k)
  | skip {j : Instruction} (h : m.holds? port i = some true) (hop : i.op.isSkip = true)
      (hj : p.flash.fetch (pc + BitVec.ofNat 16 i.size) = .ok j) :
      SendsTo p m port i pc (pc + BitVec.ofNat 16 i.size + BitVec.ofNat 16 j.size)

variable {m : Machine} {s : State} {b : Byte}

/-! ### Machines with given bytes -/

theorem exists_coveredBy (s : State) : ∃ m : Machine, m.CoveredBy s := by
  refine ⟨⟨Vector.ofFn fun r => (s.regs.get r).floor, s.sreg.floor⟩, fun r => ?_, s.sreg.covers_floor⟩
  simp only [Vector.get_eq_getElem, Vector.getElem_ofFn]
  exact (s.regs.get r).covers_floor

theorem CoveredBy.reg (h : m.CoveredBy s) (r : Nat) : (s.reg r).Covers (m.reg r) := h.1 (State.place r)

theorem CoveredBy.setReg {r : Nat} (h : m.CoveredBy s) (hb : (s.reg r).Covers b) :
    (m.setReg r b).CoveredBy s := by
  refine ⟨fun q => ?_, h.2⟩
  simp only [Machine.setReg, Vector.get_eq_getElem]
  by_cases hq : (State.place r).val = q.val
  · obtain rfl := Fin.ext hq
    rw [Vector.getElem_set_self]
    exact hb
  · rw [Vector.getElem_set_ne _ _ hq]
    exact h.1 q

end Machine

namespace State

open Tribyte

variable {s t : State} {p : Program} {i : Instruction} {c : Tribyte} {f : Machine → Byte → Bool}

/-! ### Three-valued conditions -/

/-- The condition `c` is settled exactly where all covered registers, flags and bytes at port `k` agree on
the truth value `f`. -/
def Decides (s : State) (k : Int) (c : Tribyte) (f : Machine → Byte → Bool) : Prop :=
  c.Single ∧ ∀ x, c = ofBool x ↔
    ∀ m port, m.CoveredBy s → (s.port k).Covers port → f m port = x

theorem Decides.not {k : Int} (h : s.Decides k c f) : s.Decides k c.not fun m port => !f m port := by
  refine ⟨h.1.not, fun x => ?_⟩
  simp only [h.1.not_eq_ofBool_iff, h.2, Bool.not_eq_eq_eq_not]

/-- A bit of a value is settled exactly where all covered bytes agree on it. -/
theorem decides_bit {k : Int} {n : Nat} {v : Tribyte} {g : Machine → Byte → Byte} (hn : n < 8)
    (hcovers : ∀ m port, m.CoveredBy s → (s.port k).Covers port → v.Covers (g m port))
    (hexists : ∀ b, v.Covers b → ∃ m port, m.CoveredBy s ∧ (s.port k).Covers port ∧ g m port = b) :
    s.Decides k (v.bit n) fun m port => (g m port).getLsbD n := by
  refine ⟨single_bit v n, fun x => (settles_iff_forall hn).trans ⟨?_, fun h b hb => ?_⟩⟩
  · exact fun h m port hm hport => h _ (hcovers m port hm hport)
  · obtain ⟨m, port, hm, hport, rfl⟩ := hexists b hb
    exact h m port hm hport

theorem decides_flag {k : Int} {n : Nat} (hn : n < 8) : s.Decides k (s.flag n) fun m _ => m.flag n := by
  refine decides_bit (g := fun m _ => m.sreg) hn (fun m _ hm _ => hm.2) fun b hb => ?_
  obtain ⟨m, hm⟩ := Machine.exists_coveredBy s
  exact ⟨{ m with sreg := b }, _, ⟨hm.1, hb⟩, (s.port k).covers_floor, rfl⟩

theorem decides_reg {k : Int} {n : Nat} (hn : n < 8) (r : Nat) :
    s.Decides k ((s.reg r).bit n) fun m _ => (m.reg r).getLsbD n := by
  refine decides_bit (g := fun m _ => m.reg r) hn (fun m _ hm _ => hm.reg r) fun b hb => ?_
  obtain ⟨m, hm⟩ := Machine.exists_coveredBy s
  exact ⟨m.setReg r b, _, hm.setReg hb, (s.port k).covers_floor, m.reg_setReg_self r b⟩

theorem decides_port {k : Int} {n : Nat} (hn : n < 8) :
    s.Decides k ((s.port k).bit n) fun _ port => port.getLsbD n := by
  refine decides_bit (g := fun _ port => port) hn (fun _ _ _ hport => hport) fun b hb => ?_
  obtain ⟨m, hm⟩ := Machine.exists_coveredBy s
  exact ⟨m, b, hm, hb, rfl⟩

/-- The bytes of two different registers are independent of each other. -/
theorem decides_equal {k : Int} {r q : Nat} (hne : place r ≠ place q) :
    s.Decides k ((s.reg r).equal (s.reg q)) fun m _ => m.reg r == m.reg q := by
  have hpair : ∀ c d, (s.reg r).Covers c → (s.reg q).Covers d →
      ∃ m : Machine, m.CoveredBy s ∧ m.reg r = c ∧ m.reg q = d := by
    intro c d hc hd
    obtain ⟨m, hm⟩ := Machine.exists_coveredBy s
    refine ⟨(m.setReg q d).setReg r c, (hm.setReg hd).setReg hc, Machine.reg_setReg_self _ r c, ?_⟩
    rw [reg_setReg_of_ne _ _ hne, Machine.reg_setReg_self]
  have hforall : ∀ P : Byte → Byte → Prop, (∀ c d, (s.reg r).Covers c → (s.reg q).Covers d → P c d) ↔
      ∀ (m : Machine) (port : Byte), m.CoveredBy s → (s.port k).Covers port → P (m.reg r) (m.reg q) := by
    intro P
    constructor
    · exact fun h m _ hm _ => h _ _ (hm.reg r) (hm.reg q)
    · intro h c d hc hd
      obtain ⟨m, hm, rfl, rfl⟩ := hpair c d hc hd
      exact h m _ hm (s.port k).covers_floor
  refine ⟨single_equal _ _, fun x => ?_⟩
  cases x with
  | true =>
    simp only [beq_iff_eq]
    exact equal_eq_yes_iff.trans (hforall _)
  | false =>
    simp only [beq_eq_false_iff_ne]
    exact equal_eq_no_iff.trans (hforall _)

/-! ### The condition of each instruction -/

/-- A branch is taken if the flag that it tests has the value on which it is taken. -/
theorem holds_of_branchTest {n : Nat} {b : Bool} (hop : i.branchTest? = some (n, b)) (m : Machine)
    (port : Byte) : m.holds? port i = some (if b then m.flag n else !m.flag n) ∧ i.op.isSkip = false := by
  obtain ⟨op, rd, rr, k, bit⟩ := i
  cases op <;> cases hop <;> exact ⟨rfl, rfl⟩

theorem branchTest_lt {n : Nat} {b : Bool} (hop : i.branchTest? = some (n, b)) (hbit : i.BitInRange) :
    n < 8 := by
  rcases Instruction.branchTest_cases hop with hlt | ⟨hform, rfl⟩
  · exact hlt
  · exact hbit (by simp [hform])

/-- A conditional instruction that tests no flag is a skip. -/
theorem isSkip_of_conditional (hi : i.op ∈ Opcode.conditional) (hop : i.branchTest? = none) :
    i.op.isSkip = true := by
  obtain ⟨op, rd, rr, k, bit⟩ := i
  dsimp only at hi
  cases op <;> first
    | rfl
    | (cases hop; done)
    | exact absurd hi (by decide)

/-- Each skip asks a question of its own. -/
theorem exists_skip_condition (hi : i.op.isSkip = true) (hbit : i.BitInRange)
    (hregs : i.op = .CPSE → place i.rd ≠ place i.rr) (s : State) :
    ∃ c f, s.skipTest? i = some c ∧ s.Decides i.k c f ∧
      ∀ m port, Machine.holds? m port i = some (f m port) := by
  obtain ⟨op, rd, rr, k, bit⟩ := i
  cases op
  case CPSE => exact ⟨_, _, rfl, decides_equal (hregs rfl), fun _ _ => rfl⟩
  case SBRC => exact ⟨_, _, rfl, (decides_reg (hbit (by simp [Opcode.form])) rr).not, fun _ _ => rfl⟩
  case SBRS => exact ⟨_, _, rfl, decides_reg (hbit (by simp [Opcode.form])) rr, fun _ _ => rfl⟩
  case SBIC => exact ⟨_, _, rfl, (decides_port (hbit (by simp [Opcode.form]))).not, fun _ _ => rfl⟩
  case SBIS => exact ⟨_, _, rfl, decides_port (hbit (by simp [Opcode.form])), fun _ _ => rfl⟩
  all_goals exact absurd hi Bool.false_ne_true

/-! ### Both ways -/

/-- Some registers, flags and a byte at the port that the state covers give the condition the truth value
`x`. -/
def Allows (s : State) (i : Instruction) (x : Bool) : Prop :=
  ∃ m port, m.CoveredBy s ∧ (s.port i.k).Covers port ∧ Machine.holds? m port i = some x

theorem Decides.not_allows (h : s.Decides i.k c f)
    (hholds : ∀ m port, Machine.holds? m port i = some (f m port)) (x : Bool) :
    c = ofBool x ↔ ¬ s.Allows i !x := by
  simp only [h.2, Allows, hholds, Option.some.injEq, not_exists, not_and, Bool.eq_not, not_not]

/-- The state left and the second successor. -/
def Outcome (t : State) (e : Effect) (w : State) : Prop := w = t ∨ e.taken? = some w

/-- A branch on a condition that is settled exactly if one truth value is impossible keeps the ways of the
possible truth values. -/
theorem outcome_branch {possible : Bool → Prop} (hc : ∀ x, c = ofBool x ↔ ¬ possible !x)
    (s : State) (target : Address) :
    ∃ t taken, s.branch c target = (t, .next taken) ∧
      (∀ w, Outcome t (.next taken) w ↔
        w = { s with pc := target } ∧ possible true ∨ w = s ∧ possible false) ∧
      (taken.isSome ↔ ∀ x, possible x) := by
  have hyes : c = yes ↔ ¬ possible false := hc true
  have hno : c = no ↔ ¬ possible true := hc false
  unfold State.branch Outcome
  by_cases hfalse : possible false
  · rw [if_neg fun h => hyes.mp h hfalse]
    by_cases htrue : possible true
    · rw [if_neg fun h => hno.mp h htrue]
      refine ⟨_, _, rfl, fun w => ?_, by simp [htrue, hfalse]⟩
      simp only [Effect.taken?, Option.some.injEq, htrue, hfalse, and_true]
      exact ⟨fun h => h.symm.imp_left Eq.symm, fun h => h.symm.imp_right Eq.symm⟩
    · rw [if_pos (hno.mpr htrue)]
      exact ⟨_, _, rfl, fun w => by simp [Effect.taken?, htrue, hfalse], by simp [htrue]⟩
  · rw [if_pos (hyes.mpr hfalse)]
    -- a condition is not settled both ways
    have htrue : possible true := by
      by_contra himpossible
      exact absurd ((hyes.mpr hfalse).symm.trans (hno.mpr himpossible)) (by decide)
    exact ⟨_, _, rfl, fun w => by simp [Effect.taken?, htrue, hfalse], by simp [hfalse]⟩

/-- The target of a branch lies at its distance, and the one of a skip behind the next instruction. -/
def IsTarget (p : Program) (i : Instruction) (pc target : Address) : Prop :=
  if i.op.isSkip then
    ∃ j, p.flash.fetch (pc + BitVec.ofNat 16 i.size) = .ok j ∧
      target = pc + BitVec.ofNat 16 i.size + BitVec.ofNat 16 j.size
  else target = relativeTarget pc i.k

/-- A condition that holds sends control to the target, and one that does not to the next instruction. -/
theorem sendsTo_iff {m : Machine} {port : Byte} {pc target a : Address} (ht : IsTarget p i pc target) :
    Machine.SendsTo p m port i pc a ↔
      a = target ∧ m.holds? port i = some true ∨
        a = pc + BitVec.ofNat 16 i.size ∧ m.holds? port i = some false := by
  unfold IsTarget at ht
  constructor
  · rintro (h | ⟨h, hop⟩ | ⟨h, hop, hj⟩)
    · exact .inr ⟨rfl, h⟩
    · rw [hop, if_neg Bool.false_ne_true] at ht
      exact .inl ⟨ht.symm, h⟩
    · rw [if_pos hop] at ht
      obtain ⟨j, hj', rfl⟩ := ht
      obtain rfl := Except.ok.inj (hj.symm.trans hj')
      exact .inl ⟨rfl, h⟩
  · rintro (⟨rfl, h⟩ | ⟨rfl, h⟩)
    · split at ht
      · next hop =>
        obtain ⟨j, hj, rfl⟩ := ht
        exact .skip h hop hj
      · next hop =>
        subst ht
        exact .target h (Bool.eq_false_iff.mpr hop)
    · exact .next h

/-- A conditional instruction that does not fail branches to its target on a condition that is settled
exactly if one truth value is impossible. -/
theorem exists_condition {e : Effect} (hi : i.op ∈ Opcode.conditional) (hbit : i.BitInRange)
    (hregs : i.op = .CPSE → place i.rd ≠ place i.rr) (hstep : s.step p.code.next i = (t, .ok e)) :
    ∃ c target, State.branch { s with pc := s.pc + BitVec.ofNat 16 i.size } c target = (t, e) ∧
      (∀ x, c = ofBool x ↔ ¬ s.Allows i !x) ∧ IsTarget p i s.pc target := by
  unfold State.step at hstep
  split at hstep
  · next n b hop =>
    have hholds := holds_of_branchTest hop
    have htarget : IsTarget p i s.pc (relativeTarget s.pc i.k) := by
      rw [IsTarget, (hholds default 0).2, if_neg Bool.false_ne_true]
    obtain ⟨hleft, hok⟩ := Prod.mk.inj hstep
    refine ⟨_, _, Prod.ext hleft (Except.ok.inj hok), ?_, htarget⟩
    have hflag := decides_flag (s := s) (k := i.k) (branchTest_lt hop hbit)
    cases b with
    | true => exact hflag.not_allows fun m port => (hholds m port).1
    | false => exact hflag.not.not_allows fun m port => (hholds m port).1
  · next hop =>
    have hskip := isSkip_of_conditional hi hop
    obtain ⟨c, f, hc, hdecides, hholds⟩ := exists_skip_condition hskip hbit hregs s
    -- the question does not read the program counter
    have hc' : State.skipTest? { s with pc := s.pc + BitVec.ofNat 16 i.size } i = some c := hc
    simp only [hc', Program.code, Flash.next] at hstep
    cases hj : p.flash.fetch (s.pc + BitVec.ofNat 16 i.size) with
    | error cause => simp [hj, Except.map] at hstep
    | ok j =>
      have htarget : IsTarget p i s.pc (s.pc + BitVec.ofNat 16 i.size + BitVec.ofNat 16 j.size) := by
        rw [IsTarget, if_pos hskip]
        exact ⟨j, hj, rfl⟩
      rw [hj] at hstep
      obtain ⟨hleft, hok⟩ := Prod.mk.inj hstep
      exact ⟨c, _, Prod.ext hleft (Except.ok.inj hok), hdecides.not_allows hholds, htarget⟩

/-- A conditional instruction that does not fail leaves states that differ from the one before in the
program counter only. They stand at exactly the addresses to which some registers, flags and byte at the port
that the state covers send control. A second state is left if and only if both truth values of the condition
are possible. -/
theorem outcomes_of_conditional {e : Effect} (hi : i.op ∈ Opcode.conditional) (hbit : i.BitInRange)
    (hregs : i.op = .CPSE → place i.rd ≠ place i.rr) (hstep : s.step p.code.next i = (t, .ok e)) :
    (∀ w, Outcome t e w → w = { s with pc := w.pc }) ∧
      (∀ a, (∃ w, Outcome t e w ∧ w.pc = a) ↔ ∃ m port, m.CoveredBy s ∧ (s.port i.k).Covers port ∧
        Machine.SendsTo p m port i s.pc a) ∧
      ∃ taken, e = .next taken ∧ (taken.isSome ↔ ∀ x, s.Allows i x) := by
  obtain ⟨c, target, hbranch, hc, htarget⟩ := exists_condition hi hbit hregs hstep
  obtain ⟨t', taken, hbranch', houtcome, hfork⟩ :=
    outcome_branch hc { s with pc := s.pc + BitVec.ofNat 16 i.size } target
  obtain ⟨rfl, rfl⟩ := Prod.mk.inj (hbranch.symm.trans hbranch')
  refine ⟨fun w hw => ?_, fun a => ?_, taken, rfl, hfork⟩
  · rcases (houtcome w).mp hw with ⟨rfl, -⟩ | ⟨rfl, -⟩ <;> rfl
  · simp only [houtcome, sendsTo_iff htarget]
    constructor
    · rintro ⟨w, ⟨rfl, m, port, hm, hport, h⟩ | ⟨rfl, m, port, hm, hport, h⟩, rfl⟩
      · exact ⟨m, port, hm, hport, .inl ⟨rfl, h⟩⟩
      · exact ⟨m, port, hm, hport, .inr ⟨rfl, h⟩⟩
    · rintro ⟨m, port, hm, hport, ⟨rfl, h⟩ | ⟨rfl, h⟩⟩
      · exact ⟨_, .inl ⟨rfl, m, port, hm, hport, h⟩, rfl⟩
      · exact ⟨_, .inr ⟨rfl, m, port, hm, hport, h⟩, rfl⟩

/-- A skip over an instruction of two words. -/
def skipLoad : Program :=
  .ofInstructions [{ op := .SBRC, rr := 16, bit := 0 }, { op := .LDS, rd := 1, k := 0x100 }, { op := .BREAK }]

/-- If the tested bit is unknown, a skip goes on both before and behind the two words. -/
theorem outcomes_of_conditional_of_unknown_bit :
    ∃ t u, (reset.setReg 16 .unknown).step skipLoad.code.next { op := .SBRC, rr := 16, bit := 0 } =
        (t, .ok (.next (some u))) ∧ t.pc = 2#16 ∧ u.pc = 6#16 ∧
      (∀ a, (a = 2#16 ∨ a = 6#16) ↔ ∃ m port, m.CoveredBy (reset.setReg 16 .unknown) ∧
        ((reset.setReg 16 .unknown).port 0).Covers port ∧
          Machine.SendsTo skipLoad m port { op := .SBRC, rr := 16, bit := 0 } 0#16 a) ∧
      ∀ x, (reset.setReg 16 .unknown).Allows { op := .SBRC, rr := 16, bit := 0 } x := by
  have hstep : (reset.setReg 16 .unknown).step skipLoad.code.next { op := .SBRC, rr := 16, bit := 0 } =
      ({ reset.setReg 16 .unknown with pc := 2#16 },
        .ok (.next (some { reset.setReg 16 .unknown with pc := 6#16 }))) := by decide +kernel
  obtain ⟨-, hreached, taken, htaken, hfork⟩ :=
    outcomes_of_conditional (by decide) (fun _ => by decide) (by simp) hstep
  obtain rfl := Effect.next.inj htaken
  refine ⟨_, _, hstep, rfl, rfl, fun a => Iff.trans ?_ (hreached a), hfork.mp rfl⟩
  simp only [Outcome, Effect.taken?, Option.some.injEq, or_and_right, exists_or, exists_eq_left,
    eq_comm]

end State

end StackDepth
