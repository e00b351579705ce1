import Mathlib
import StackDepth.Proofs.Analysis.CallString
import StackDepth.Proofs.Assembly.Ranges
import StackDepth.Proofs.Processor.Step
import StackDepth.Proofs.Transfer.Soundness

/-!
# Configurations follow the processor

A configuration matches a processor if its state covers the registers, its height is at least that of
the stack, and its frames resume where those of the processor do. Every step of the processor that settles
its frame is followed by a step of the configuration: straight instructions by the soundness of the transfer
functions, a branch or a skip by the successor that the concrete bit selects, and a return because the
height of the caller is not below that of the processor.

Main statements:

* `Tribyte.Tells.branch`: the successor that a truth value selects is one of those of a branch;
* `Processor.Matches.straight`, `Processor.Matches.branch`, `Processor.Matches.enter`,
  `Processor.Matches.leave`: the parts of a step;
* `Processor.Matches.step`: every settling step is followed.
-/

namespace StackDepth

open StackDepth.Configuration

/-! ### Conditions -/

theorem Tribyte.Tells.ne_no {v : Tribyte} {sharp : Prop} (h : v.Tells sharp 0 true) : v ≠ .no := by
  rintro rfl
  exact absurd (h.1 rfl) (by decide)

theorem Tribyte.Tells.ne_yes {v : Tribyte} {sharp : Prop} (h : v.Tells sharp 0 false) : v ≠ .yes := by
  rintro rfl
  exact absurd (h.1 rfl) (by decide)

/-- The successor that a truth value selects is one of those of a branch whose condition tells it. -/
theorem Tribyte.Tells.branch {c : Tribyte} {sharp x : Prop} [Decidable x]
    (h : c.Tells sharp 0 (decide x)) (s : State) (a : Address) :
    ∃ t taken, s.branch c a = (t, .next taken) ∧
      (t = (if x then { s with pc := a } else s) ∨
        taken = some (if x then { s with pc := a } else s)) := by
  by_cases hx : x
  · have hne := ne_no (by simpa [hx] using h)
    rw [if_pos hx, State.branch]
    by_cases hyes : c = .yes
    · rw [if_pos hyes]
      exact ⟨_, _, rfl, .inl rfl⟩
    · rw [if_neg hyes, if_neg hne]
      exact ⟨_, _, rfl, .inr rfl⟩
  · have hne := ne_yes (by simpa [hx] using h)
    rw [if_neg hx, State.branch, if_neg hne]
    by_cases hno : c = .no
    · rw [if_pos hno]
      exact ⟨_, _, rfl, .inl rfl⟩
    · rw [if_neg hno]
      exact ⟨_, _, rfl, .inl rfl⟩

/-! ### Instructions on abstract states -/

theorem executes_of_step {p : Program} {s t : State} {i : Instruction} {e : Effect}
    (hi : p.flash.fetch s.pc = .ok i) (h : s.step p.flash.next i = (t, .ok e)) :
    p.code.Executes s t e := by
  refine ⟨.instr i, ?_, h⟩
  simp only [Program.code, hi, Except.map]

/-- What only changes registers and flags leaves the rest of the state alone. -/
theorem straight_rest {i : Instruction} (hop : i.op ∈ Machine.modelled) (s : State) :
    (s.straight i).pc = s.pc ∧ (s.straight i).eimsk = s.eimsk ∧ (s.straight i).timsk = s.timsk := by
  obtain ⟨op, rd, rr, k, bit⟩ := i
  dsimp only at hop
  have hmultiply : ∀ (i : Instruction) (a b f : Bool), (s.multiply i a b f).pc = s.pc ∧
      (s.multiply i a b f).eimsk = s.eimsk ∧ (s.multiply i a b f).timsk = s.timsk := by
    intro i a b f
    unfold State.multiply
    dsimp only
    split
    · exact ⟨rfl, rfl, rfl⟩
    · split
      · exact ⟨rfl, rfl, rfl⟩
      · exact ⟨rfl, rfl, rfl⟩
  cases op
  all_goals first
    | exact ⟨rfl, rfl, rfl⟩
    | exact hmultiply _ _ _ _
    | exact absurd hop (by decide)

section Opcodes

variable (code : NextAddress) (s : State) {i : Instruction}

theorem step_of_idle (hop : i.op ∈ [.NOP, .WDR, .SLEEP]) :
    s.step code i = (s.passed i, .ok (.next none)) := by
  obtain ⟨op, rd, rr, k, bit⟩ := i
  simp only [List.mem_cons, List.not_mem_nil, or_false] at hop
  rcases hop with rfl | rfl | rfl
  · rfl
  · rfl
  · rfl

theorem step_of_relativeJump (hop : i.op = .RJMP) :
    s.step code i = ({ s with pc := relativeTarget s.pc i.k }, .ok (.next none)) := by
  obtain ⟨op, rd, rr, k, bit⟩ := i
  obtain rfl : op = .RJMP := hop
  rfl

theorem step_of_jump (hop : i.op = .JMP) :
    s.step code i = ({ s with pc := absoluteTarget i.k }, .ok (.next none)) := by
  obtain ⟨op, rd, rr, k, bit⟩ := i
  obtain rfl : op = .JMP := hop
  rfl

theorem step_of_indirectJump (hop : i.op = .IJMP) : s.step code i = (s, .ok .indirectJump) := by
  obtain ⟨op, rd, rr, k, bit⟩ := i
  obtain rfl : op = .IJMP := hop
  rfl

theorem step_of_relativeCall (hop : i.op = .RCALL) :
    s.step code i = (s, .ok (.call (relativeTarget s.pc i.k))) := by
  obtain ⟨op, rd, rr, k, bit⟩ := i
  obtain rfl : op = .RCALL := hop
  rfl

theorem step_of_call (hop : i.op = .CALL) : s.step code i = (s, .ok (.call (absoluteTarget i.k))) := by
  obtain ⟨op, rd, rr, k, bit⟩ := i
  obtain rfl : op = .CALL := hop
  rfl

theorem step_of_indirectCall (hop : i.op = .ICALL) : s.step code i = (s, .ok .indirectCall) := by
  obtain ⟨op, rd, rr, k, bit⟩ := i
  obtain rfl : op = .ICALL := hop
  rfl

theorem step_of_ret (hop : i.op = .RET) : s.step code i = (s, .ok .ret) := by
  obtain ⟨op, rd, rr, k, bit⟩ := i
  obtain rfl : op = .RET := hop
  rfl

theorem step_of_reti (hop : i.op = .RETI) : s.step code i = (s, .ok .reti) := by
  obtain ⟨op, rd, rr, k, bit⟩ := i
  obtain rfl : op = .RETI := hop
  rfl

theorem step_of_push (hop : i.op = .PUSH) : s.step code i = (s.passed i, .ok .push) := by
  obtain ⟨op, rd, rr, k, bit⟩ := i
  obtain rfl : op = .PUSH := hop
  rfl

/-- What was on the stack is not tracked. -/
theorem step_of_pop (hop : i.op = .POP) :
    s.step code i = ((s.passed i).setReg i.rd .unknown, .ok .pop) := by
  obtain ⟨op, rd, rr, k, bit⟩ := i
  obtain rfl : op = .POP := hop
  rfl

theorem step_of_input (hop : i.op = .IN) :
    s.step code i = ((s.passed i).setReg i.rd (s.port i.k), .ok (.next none)) := by
  obtain ⟨op, rd, rr, k, bit⟩ := i
  obtain rfl : op = .IN := hop
  rfl

theorem setPort_passed (i : Instruction) (a : Int) (v : Tribyte) :
    (s.passed i).setPort a v = { s.setPort a v with pc := (s.passed i).pc } := by
  unfold State.setPort
  split
  · rfl
  · split
    · rfl
    · split
      · rfl
      · rfl

theorem step_of_output (hop : i.op = .OUT) :
    s.step code i =
      ({ s.setPort i.k (s.reg i.rr) with pc := (s.passed i).pc }, .ok (.next none)) := by
  rw [← setPort_passed]
  obtain ⟨op, rd, rr, k, bit⟩ := i
  obtain rfl : op = .OUT := hop
  rfl

end Opcodes

/-- A skip goes to one of the two addresses behind the next instruction, if that can be told. -/
theorem step_of_skipTest (code : NextAddress) (s : State) {i : Instruction} {c : Tribyte} {a : Address}
    (hno : i.branchTest? = none) (hop : (s.passed i).skipTest? i = some c)
    (ha : code (s.passed i).pc = .ok a) :
    s.step code i = (((s.passed i).branch c a).1, .ok ((s.passed i).branch c a).2) := by
  unfold State.passed at hop ha
  rw [State.step]
  simp only [hno, hop, ha]
  rfl

theorem not_executes_of_skipTest {code : Code} {s t : State} {i : Instruction} {c : Tribyte}
    {e : Effect} (hi : code.fetch s.pc = .ok (.instr i)) (hno : i.branchTest? = none)
    (hop : (s.passed i).skipTest? i = some c) {cause : FetchError}
    (ha : code.next (s.passed i).pc = .error cause) : ¬ code.Executes s t e := by
  rintro ⟨cell, hcell, hstep⟩
  obtain rfl : Cell.instr i = cell := Except.ok.inj (hi.symm.trans hcell)
  unfold State.passed at hop ha
  rw [State.stepCell, State.step] at hstep
  simp [hno, hop, ha] at hstep

/-! ### States and processors -/

namespace Processor

/-- The values of the processor are among those of the state. -/
structure ShownBy (m : Processor) (s : State) : Prop where
  /-- The registers and flags are among those of the state. -/
  machine : m.machine.ShownBy False s
  /-- So is the mask of the external interrupts. -/
  eimsk : s.eimsk.Shows False m.eimsk
  /-- So is the mask of the timer interrupts. -/
  timsk : s.timsk.Shows False m.timsk
  /-- Both stand at the same address. -/
  pc : s.pc = m.pc

variable {m : Processor} {s : State}

theorem StartsAt.shownBy (h : m.StartsAt s) : m.ShownBy s where
  machine := h.machine.shownBy False.elim
  eimsk := ⟨h.eimsk, False.elim⟩
  timsk := ⟨h.timsk, False.elim⟩
  pc := h.pc.symm

theorem ShownBy.behind (h : m.ShownBy s) (i : Instruction) : (s.passed i).pc = m.behind i :=
  congrArg (· + BitVec.ofNat 16 i.size) h.pc

/-- Only the program counter changes. -/
theorem ShownBy.goto (h : m.ShownBy s) (a : Address) :
    ShownBy { m with pc := a } { s with pc := a } :=
  ⟨h.machine, h.eimsk, h.timsk, rfl⟩

/-- The stack is not part of the state. -/
theorem ShownBy.stack (h : m.ShownBy s) (height : Int) (frames : List Pending) :
    ShownBy { m with height, frames } s :=
  ⟨h.machine, h.eimsk, h.timsk, h.pc⟩

theorem ShownBy.enter (h : m.ShownBy s) (a r : Address) : (m.enter a r).ShownBy { s with pc := a } :=
  (h.goto a).stack _ _

theorem ShownBy.passed (h : m.ShownBy s) (i : Instruction) :
    ShownBy { m with pc := m.behind i } (s.passed i) :=
  ⟨h.machine, h.eimsk, h.timsk, h.behind i⟩

theorem ShownBy.setFlag (h : m.ShownBy s) {t : Tribyte} {x : Bool} (ht : t.Tells False 0 x) {n : Nat}
    (hn : n < 8) : ShownBy { m with machine := m.machine.setFlag n x } (s.setFlag n t) :=
  ⟨h.machine.setFlag ht hn, h.eimsk, h.timsk, h.pc⟩

theorem ShownBy.setReg (h : m.ShownBy s) {v : Tribyte} {b : Byte} (hv : v.Shows False b) (r : Nat) :
    ShownBy { m with machine := m.machine.setReg r b } (s.setReg r v) :=
  ⟨h.machine.setReg hv r, h.eimsk, h.timsk, h.pc⟩

/-- A byte that a port may deliver is one of those of the port of the state. -/
theorem ShownBy.port (h : m.ShownBy s) {a : Int} {b : Byte} (hb : ∀ c ∈ m.port? a, b = c) :
    (s.port a).Shows False b := by
  unfold State.port
  unfold Processor.port? at hb
  split
  · rw [if_pos ‹_›] at hb
    rw [hb _ rfl]
    exact h.machine.2
  · rw [if_neg ‹_›] at hb
    split
    · rw [if_pos ‹_›] at hb
      rw [hb _ rfl]
      exact h.eimsk
    · rw [if_neg ‹_›] at hb
      split
      · rw [if_pos ‹_›] at hb
        rw [hb _ rfl]
        exact h.timsk
      · exact Tribyte.shows_unknown id b

theorem ShownBy.setPort (h : m.ShownBy s) {v : Tribyte} {b : Byte} (hv : v.Shows False b) (a : Int) :
    (m.setPort a b).ShownBy (s.setPort a v) := by
  unfold Processor.setPort State.setPort
  split
  · exact ⟨⟨h.machine.1, hv.canon⟩, h.eimsk, h.timsk, h.pc⟩
  · split
    · exact ⟨h.machine, hv.canon, h.timsk, h.pc⟩
    · split
      · exact ⟨h.machine, h.eimsk, hv.canon, h.pc⟩
      · exact h

theorem setPort_stack (m : Processor) (a : Int) (b : Byte) :
    (m.setPort a b).height = m.height ∧ (m.setPort a b).frames = m.frames := by
  unfold Processor.setPort
  split
  · exact ⟨rfl, rfl⟩
  · split
    · exact ⟨rfl, rfl⟩
    · split
      · exact ⟨rfl, rfl⟩
      · exact ⟨rfl, rfl⟩

/-- An interrupt that may fire is one of those of the state. -/
theorem ShownBy.mem_interrupts (h : m.ShownBy s) {num : Nat} (hfire : m.MayFire num) :
    num ∈ s.interrupts := by
  obtain ⟨henabled, n, hn, hmask⟩ := hfire
  have hflag : (s.flag Flag.I).Tells False 0 true := henabled ▸ h.machine.flag (by decide)
  rw [State.interrupts, if_neg hflag.ne_no, List.mem_append]
  rcases hmask with ⟨hbit, rfl⟩ | ⟨hbit, rfl⟩
  · have hopen : s.eimsk.bit n ≠ .no := (hbit ▸ h.eimsk.bit hn).ne_no
    refine .inl (List.mem_map.mpr ⟨n, ?_, rfl⟩)
    simp [hn, hopen]
  · have hopen : s.timsk.bit n ≠ .no := (hbit ▸ h.timsk.bit hn).ne_no
    refine .inr (List.mem_map.mpr ⟨n, ?_, rfl⟩)
    simp [hn, hopen]

theorem plain_of_skips {i : Instruction} {x : Bool} (hop : m.skips? i = some x) :
    i.op.form.takesPointer = false := by
  obtain ⟨op, rd, rr, k, bit⟩ := i
  cases op <;> first | rfl | exact absurd hop (by simp [skips?])

/-- The condition of a skip tells whether it skips. -/
theorem ShownBy.skipTest (h : m.ShownBy s) {i : Instruction} (hi : i.Encodable) {x : Bool}
    (hop : m.skips? i = some x) :
    i.branchTest? = none ∧ ∃ c, (s.passed i).skipTest? i = some c ∧ c.Tells False 0 x := by
  obtain ⟨op, rd, rr, k, bit⟩ := i
  have hd := h.machine.reg rd
  have hr := h.machine.reg rr
  cases op
  case CPSE =>
    obtain rfl := Option.some.inj hop
    exact ⟨rfl, _, rfl, hd.equal hr⟩
  case SBRC =>
    obtain rfl := Option.some.inj hop
    obtain ⟨-, -, hbit⟩ := hi
    exact ⟨rfl, _, rfl, (hr.bit hbit).not (by decide)⟩
  case SBRS =>
    obtain rfl := Option.some.inj hop
    obtain ⟨-, -, hbit⟩ := hi
    exact ⟨rfl, _, rfl, hr.bit hbit⟩
  all_goals exact absurd hop (by simp [Processor.skips?])

/-- The condition of a branch tells whether it is taken. -/
theorem ShownBy.branchTest (h : m.ShownBy s) {i : Instruction} (hi : i.Encodable) {n : Nat} {b : Bool}
    (hop : i.branchTest? = some (n, b)) :
    (if b then s.flag n else (s.flag n).not).Tells False 0 (decide (m.machine.flag n = b)) := by
  have hflag := h.machine.flag (hi.branchTest_lt hop)
  cases b with
  | true => simpa using hflag
  | false => simpa [Bool.decide_eq_false] using hflag.not (by decide)

/-! ### Configurations and processors -/

/-- A pending frame of the processor is one of a configuration: both resume at the same address, and the
configuration was not lower when it was entered. -/
structure Pending.Matches (p : Program) (f : Pending) (F : Frame) : Prop where
  /-- The frame was entered by a call or an interrupt. -/
  entersFrame : F.kind.entersFrame = true
  /-- Both resume at the same address. -/
  resume : p.code.resume F.kind F.caller = .ok f.resume
  /-- The processor was not higher when it was entered. -/
  level : f.level ≤ F.height

/-- A configuration follows the processor. -/
structure Matches (p : Program) (m : Processor) (c : Configuration) : Prop where
  /-- The values of the processor are among those of the configuration. -/
  shown : m.ShownBy c.state
  /-- The stack of the processor is not higher. -/
  height : m.height ≤ c.height
  /-- The pending frames match, one by one. -/
  frames : List.Forall₂ (Pending.Matches p) m.frames c.frames

variable {p : Program} {vectors : Int} {n : Processor} {c : Configuration}

/-- A straight instruction is followed by its abstract successor. -/
theorem Matches.straight (h : m.Matches p c) {t : State} {taken : Option State}
    (hexec : p.code.Executes c.state t (.next taken)) (hn : n.ShownBy t)
    (hheight : n.height = m.height) (hframes : n.frames = m.frames) :
    ∃ d, Configuration.Step p.code vectors c d ∧ n.Matches p d := by
  refine ⟨⟨t, c.height, c.frames⟩, .next hexec, hn, ?_, ?_⟩
  · rw [hheight]
    exact h.height
  · rw [hframes]
    exact h.frames

/-- A branch is followed by the successor that the condition selects. -/
theorem Matches.branch (h : m.Matches p c) {i : Instruction} {a : Address} {v : Tribyte} {x : Prop}
    [Decidable x] (hv : v.Tells False 0 (decide x))
    (hexec : p.code.Executes c.state ((c.state.passed i).branch v a).1
      ((c.state.passed i).branch v a).2) :
    ∃ d, Configuration.Step p.code vectors c d ∧
      Matches p { m with pc := if x then a else m.behind i } d := by
  obtain ⟨t, taken, hbranch, hselected⟩ := hv.branch (c.state.passed i) a
  rw [hbranch] at hexec
  have hshown : ShownBy { m with pc := if x then a else m.behind i }
      (if x then { c.state.passed i with pc := a } else c.state.passed i) := by
    split
    · exact h.shown.goto a
    · exact h.shown.passed i
  rcases hselected with hfirst | hsecond
  · rw [← hfirst] at hshown
    exact h.straight hexec hshown rfl rfl
  · rw [hsecond] at hexec
    exact ⟨⟨_, c.height, c.frames⟩, .taken hexec, hshown, h.height, h.frames⟩

/-- A call or an interrupt is followed by entering a frame that resumes at the same address. -/
theorem Matches.enter (h : m.Matches p c) {k : EdgeKind} {t : State} {r : Address}
    (hmove : p.code.Move vectors c.state k t) (hk : k.entersFrame = true)
    (hresume : p.code.resume k c.state = .ok r) (hn : n.ShownBy t)
    (hheight : n.height = m.height + 2) (hframes : n.frames = ⟨r, m.height⟩ :: m.frames) :
    ∃ d, Configuration.Step p.code vectors c d ∧ n.Matches p d := by
  have hweight : k.weight = 2 := by
    revert hk
    cases k <;> simp [EdgeKind.entersFrame, EdgeKind.weight]
  have hstep := step_of_move hmove c.height c.frames
  rw [hweight, framesAfter, if_pos hk] at hstep
  refine ⟨_, hstep, hn, ?_, ?_⟩
  · rw [hheight]
    exact Int.add_le_add_right h.height 2
  · rw [hframes]
    exact .cons ⟨hk, hresume, h.height⟩ h.frames

/-- A return that settles its frame is followed by the return of the configuration. -/
theorem Matches.leave (h : m.Matches p c) {kind : StateKind} (hend : p.code.Ends c.state kind)
    {f : Pending} {fs : List Pending} (hframes : m.frames = f :: fs)
    (hn : ∀ a, f.resume = a → n.ShownBy (Exploration.resumedState c.state kind a))
    (hrest : n.frames = fs) (hheight : n.height ≤ f.level) :
    ∃ d, Configuration.Step p.code vectors c d ∧ n.Matches p d := by
  obtain ⟨s, height, gs⟩ := c
  have hmatch := h.frames
  rw [hframes] at hmatch
  cases hmatch with
  | @cons _ F _ Fs hf hfs =>
    refine ⟨_, step_of_return hend hf.entersFrame hf.resume height Fs, hn _ rfl,
      hheight.trans hf.level, ?_⟩
    rw [hrest]
    exact hfs

/-- Every step that settles its frame is followed by a configuration, if the instruction of the one
before can be executed. -/
theorem Matches.step (h : m.Matches p c) (hp : p.IsEncodable)
    (hexec : ∃ t e, p.code.Executes c.state t e) (hstep : Step p vectors m n) (hsettles : m.Settles n) :
    ∃ d, Configuration.Step p.code vectors c d ∧ n.Matches p d := by
  have hpc := h.shown.pc
  have hfetch : ∀ {i}, p.flash.fetch m.pc = .ok i → p.flash.fetch c.state.pc = .ok i := by
    intro i hi
    rw [hpc]
    exact hi
  have hnext : ∀ {i}, p.flash.fetch m.pc = .ok i → p.code.resume .call c.state = .ok (m.behind i) := by
    intro i hi
    simp only [Code.resume, if_true, Program.code, Flash.next, hfetch hi, Except.map]
    rw [← h.shown.behind i]
    rfl
  cases hstep with
  | @interrupt num hfire =>
    have hmove : p.code.Move vectors c.state .interrupt
        { c.state.setFlag Flag.I .no with pc := vectorAddress num vectors } :=
      .interrupt (h.shown.mem_interrupts hfire)
    have hresume : p.code.resume .interrupt c.state = .ok m.pc := congrArg Except.ok hpc
    have hflag : Flag.I < 8 := by decide
    exact h.enter hmove rfl hresume ((h.shown.setFlag Tribyte.tells_no hflag).enter _ _) rfl rfl
  | @alu i k hi hop hdone =>
    have hform : ∀ op ∈ Machine.modelled, op.form.takesPointer = false := by decide
    have hi' := hp _ _ hi (hform _ hop)
    obtain ⟨k', hk', hshown⟩ := (h.shown.passed i).machine.straight i hop hi'
    obtain rfl : k = k' := (Prod.mk.inj (hdone.symm.trans hk')).1
    obtain ⟨hpc', heimsk, htimsk⟩ := straight_rest hop (c.state.passed i)
    refine h.straight (executes_of_step (hfetch hi) (step_of_modelled _ _ i hop)) ⟨hshown, ?_, ?_, ?_⟩
      rfl rfl
    · exact heimsk.symm ▸ h.shown.eimsk
    · exact htimsk.symm ▸ h.shown.timsk
    · exact hpc'.trans (h.shown.behind i)
  | @flag i k b hi hop =>
    obtain ⟨hk, hstep⟩ := step_of_flagAction p.flash.next c.state hop
    refine h.straight (executes_of_step (hfetch hi) hstep) ?_ rfl rfl
    exact (h.shown.passed i).setFlag (Tribyte.tells_ofBool b) hk
  | @idle i hi hop =>
    have hstep := executes_of_step (hfetch hi) (step_of_idle _ _ hop)
    exact h.straight hstep (h.shown.passed i) rfl rfl
  | @branch i k b hi hop =>
    have htells := h.shown.branchTest (hp _ _ hi (plain_of_branchTest hop)) hop
    have hstep := step_of_branchTest p.flash.next c.state hop
    rw [hpc] at hstep
    exact h.branch htells (executes_of_step (hfetch hi) hstep)
  | @skip i a hi hop ha =>
    obtain ⟨hno, v, hv, htells⟩ := h.shown.skipTest (hp _ _ hi (plain_of_skips hop)) hop
    rw [← h.shown.behind i] at ha
    exact h.branch (x := True) htells (executes_of_step (hfetch hi) (step_of_skipTest _ _ hno hv ha))
  | @noSkip i hi hop =>
    obtain ⟨hno, v, hv, htells⟩ := h.shown.skipTest (hp _ _ hi (plain_of_skips hop)) hop
    -- the instruction to skip is there, since the abstract state looks for it in either case
    cases ha : p.flash.next (c.state.passed i).pc with
    | error cause =>
      obtain ⟨t, e, hexec⟩ := hexec
      have hcell : p.code.fetch c.state.pc = .ok (.instr i) := by
        simp only [Program.code, hfetch hi, Except.map]
      exact absurd hexec (not_executes_of_skipTest hcell hno hv ha)
    | ok a =>
      exact h.branch (x := False) htells (executes_of_step (hfetch hi) (step_of_skipTest _ _ hno hv ha))
  | @relativeJump i hi hop =>
    have hstep := executes_of_step (hfetch hi) (step_of_relativeJump _ _ hop)
    rw [hpc] at hstep
    exact h.straight hstep (h.shown.goto _) rfl rfl
  | @jump i hi hop =>
    have hstep := executes_of_step (hfetch hi) (step_of_jump _ _ hop)
    exact h.straight hstep (h.shown.goto _) rfl rfl
  | @indirectJump i targets a hi hop htargets ha =>
    have hstep := executes_of_step (hfetch hi) (step_of_indirectJump _ _ hop)
    have htargets' : p.code.targets? c.state.pc = some targets := hpc.symm ▸ htargets
    exact ⟨_, .indirectJump hstep htargets' ha, h.shown.goto a, h.height, h.frames⟩
  | @relativeCall i hi hop =>
    have hstep := executes_of_step (hfetch hi) (step_of_relativeCall _ _ hop)
    rw [hpc] at hstep
    exact h.enter (.call hstep) rfl (hnext hi) (h.shown.enter _ _) rfl rfl
  | @call i hi hop =>
    have hstep := executes_of_step (hfetch hi) (step_of_call _ _ hop)
    exact h.enter (.call hstep) rfl (hnext hi) (h.shown.enter _ _) rfl rfl
  | @indirectCall i targets a hi hop htargets ha =>
    have hstep := executes_of_step (hfetch hi) (step_of_indirectCall _ _ hop)
    have htargets' : p.code.targets? c.state.pc = some targets := hpc.symm ▸ htargets
    exact h.enter (.indirectCall hstep htargets' ha) rfl (hnext hi) (h.shown.enter a _) rfl rfl
  | @ret i f fs hi hop hframes =>
    have hstep := executes_of_step (hfetch hi) (step_of_ret _ _ hop)
    refine h.leave (.ret hstep) hframes ?_ rfl (hsettles f hframes)
    rintro a rfl
    exact ⟨h.shown.machine, h.shown.eimsk, h.shown.timsk, rfl⟩
  | @reti i f fs hi hop hframes =>
    have hstep := executes_of_step (hfetch hi) (step_of_reti _ _ hop)
    refine h.leave (.reti hstep) hframes ?_ rfl (hsettles f hframes)
    rintro a rfl
    exact ⟨h.shown.machine.setFlag Tribyte.tells_yes (by decide), h.shown.eimsk, h.shown.timsk, rfl⟩
  | @push i hi hop =>
    have hstep := executes_of_step (hfetch hi) (step_of_push _ _ hop)
    exact ⟨_, .push hstep, (h.shown.passed i).stack _ _, Int.add_le_add_right h.height 1, h.frames⟩
  | @pop i b hi hop =>
    have hstep := executes_of_step (hfetch hi) (step_of_pop _ _ hop)
    have hshown := (h.shown.passed i).setReg (Tribyte.shows_unknown id b) i.rd
    exact ⟨_, .pop hstep, hshown.stack _ _, Int.sub_le_sub_right h.height 1, h.frames⟩
  | @input i b hi hop hb =>
    have hstep := executes_of_step (hfetch hi) (step_of_input _ _ hop)
    exact h.straight hstep ((h.shown.passed i).setReg (h.shown.port hb) i.rd) rfl rfl
  | @output i hi hop =>
    have hstep := executes_of_step (hfetch hi) (step_of_output _ _ hop)
    rw [h.shown.behind i] at hstep
    have hshown := h.shown.setPort (h.shown.machine.reg i.rr) i.k
    have hstack := setPort_stack m i.k (m.machine.reg i.rr)
    exact h.straight hstep (hshown.goto _) hstack.1 hstack.2

end Processor

end StackDepth
