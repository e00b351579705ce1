import Mathlib
import StackDepth.Proofs.Assembly.Layout

/-!
# Where transfers go

An absolute transfer names an address of the flash and goes there. A relative transfer keeps the distance to its
target in words, and only this distance is checked: a number outside the flash is accepted if it is near
enough, and the transfer goes around the flash. Labels stand inside the flash, so a transfer to a label never
does.

* `Assembly.AimedAt`: what the assembler guarantees of a relative transfer to a number;
* `Assembly.targets_of_assemble`: where the transfers of an assembled program go.
-/

namespace StackDepth

namespace Assembly

variable {labels : Labels} {s : String} {pc : Address} {t : Int}

theorem toNat_ofInt_address (t : Int) : ((BitVec.ofInt 16 t).toNat : Int) = t % flashSize := by
  rw [BitVec.toNat_ofInt, flashSize]
  omega

/-! ### Relative transfers -/

theorem distanceLimit_of_flagRelative {op : Opcode} (h : op.form = .flagRelative) : distanceLimit op = 64 := by
  cases op <;> first | rfl | cases h

/-- The distance of a relative transfer lies within the limit of its opcode. -/
theorem distance_of_encodable {i : Instruction} (hi : i.Encodable)
    (hform : i.op.form ∈ [.relative, .flagRelative]) :
    -distanceLimit i.op ≤ i.k ∧ i.k < distanceLimit i.op := by
  rcases List.mem_pair.mp hform with hform | hform
  · simp only [Instruction.Encodable, hform] at hi
    exact hi.2
  · simp only [Instruction.Encodable, hform] at hi
    rw [distanceLimit_of_flagRelative hform]
    exact hi.2.2

/-- The relative transfer `i` at `c` was written with the number `t` for its target. -/
structure AimedAt (t : Int) (c : Nat) (i : Instruction) : Prop where
  /-- The target is a whole number of words. -/
  even : t % 2 = 0
  /-- The distance counts from the next instruction. -/
  distance : t = c + 2 + 2 * i.k
  /-- The distance lies within the limit of the opcode. -/
  near : -distanceLimit i.op ≤ i.k ∧ i.k < distanceLimit i.op
  /-- The transfer goes around the flash. -/
  reaches : ((relativeTarget (BitVec.ofNat 16 c) i.k).toNat : Int) = t % flashSize

theorem AimedAt.reaches_iff {i : Instruction} {c : Nat} (h : AimedAt t c i) :
    ((relativeTarget (BitVec.ofNat 16 c) i.k).toNat : Int) = t ↔ IsWordAddress t := by
  have heven := h.even
  rw [h.reaches, IsWordAddress, flashSize]
  omega

theorem aimedAt_of_encode {op : Opcode} {operands : List String} {i : Instruction} (hpc : pc.toNat % 2 = 0)
    (h : encode labels pc op operands = .ok i) (hform : i.op.form ∈ [.relative, .flagRelative])
    (hlast : operands.getLast? = some s) (hs : distance? (Text.trim s).toList = none) :
    ∃ t, constant labels s = .ok t ∧ AimedAt t pc.toNat i := by
  obtain ⟨rfl, hencodable⟩ := encodable_encode h
  have hplain : i.op.form.takesPointer = false := by
    rcases List.mem_pair.mp hform with h | h <;> rw [h] <;> rfl
  obtain ⟨limit, hk⟩ := relativeWords_of_encode h hform hlast
  obtain ⟨hvalue, -⟩ := (relativeWords_eq_ok_iff hpc hs).mp hk
  refine ⟨_, hvalue, by omega, rfl, distance_of_encodable (hencodable hplain) hform, ?_⟩
  rw [BitVec.ofNat_toNat, BitVec.setWidth_eq, relativeTarget, toNat_ofInt_address]

/-! ### Assembled programs -/

variable {text : String} {p : Program} {c : Nat} {line : Line} {mnemonic target : String}
  {operands : List String}

/-- Where the transfers of an assembled program go; the last operand of a transfer is its target. A relative
transfer reaches the number it was written with exactly if that is an address of the flash, and a label always
is. An absolute transfer reaches its target. -/
theorem targets_of_assemble (h : assemble text = .ok p) (hmem : (c, line) ∈ locate 0 (readLines text))
    (hst : line.statement = .instruction mnemonic operands) (hlast : operands.getLast? = some target) :
    ∃ i, p.flash.fetch (BitVec.ofNat 16 c) = .ok i ∧
      (i.op.form ∈ [.relative, .flagRelative] → distance? (Text.trim target).toList = none →
        ∃ t, constant p.labels target = .ok t ∧ AimedAt t c i ∧
          (((relativeTarget (BitVec.ofNat 16 c) i.k).toNat : Int) = t ↔ IsWordAddress t) ∧
          (p.label? (Text.trim target) ≠ none → IsWordAddress t)) ∧
      (i.op.form = .absolute → ∃ t, constant p.labels target = .ok t ∧ IsWordAddress t ∧
        ((absoluteTarget i.k).toNat : Int) = t) := by
  obtain ⟨pc, op, i, rfl, hpc, heven, -, hencode, hfetch⟩ := exists_fetch_of_assemble h hmem hst
  refine ⟨i, hfetch, fun hform hs => ?_, fun hform => ?_⟩
  · obtain ⟨t, hvalue, haim⟩ := aimedAt_of_encode heven hencode hform hlast hs
    rw [hpc] at haim
    refine ⟨t, hvalue, haim, haim.reaches_iff, fun hlabel => ?_⟩
    obtain ⟨a, ha⟩ := Option.ne_none_iff_exists'.mp hlabel
    obtain rfl := Except.ok.inj (hvalue.symm.trans (constant_of_lookup ha))
    exact ⟨by omega, by exact_mod_cast a.isLt, haim.even⟩
  · obtain ⟨rfl, -⟩ := encodable_encode hencode
    obtain ⟨hvalue, hword⟩ := absoluteWord_eq_ok_iff.mp (absoluteWord_of_encode hencode hform hlast)
    refine ⟨_, hvalue, hword, ?_⟩
    rw [absoluteTarget, toNat_ofInt_address, Int.emod_eq_of_lt hword.1 hword.2.1]

/-- A branch back to the jump at its start. -/
def branchBack : Program where
  flash :=
    { slots := #[some { op := .JMP, k := 2 }, none, some { op := .BRNE, k := -3 }]
      finish := 6 }

theorem targets_of_assemble_branch_back :
    assemble "jmp 4\nbrne 0" = .ok branchBack ∧
      ∃ t, constant [] "0" = .ok t ∧ AimedAt t 4 { op := .BRNE, k := -3 } ∧
        (((relativeTarget 4 (-3)).toNat : Int) = t ↔ IsWordAddress t) := by
  have hasm : assemble "jmp 4\nbrne 0" = .ok branchBack := by decide +kernel
  have hmem : (4, ⟨[], .instruction "brne" ["0"]⟩) ∈ locate 0 (readLines "jmp 4\nbrne 0") := by
    decide +kernel
  have hbranch : branchBack.flash.fetch 4 = .ok { op := .BRNE, k := -3 } := by decide +kernel
  obtain ⟨i, hfetch, hrelative, -⟩ := targets_of_assemble hasm hmem rfl rfl
  obtain rfl := Except.ok.inj (hfetch.symm.trans hbranch)
  obtain ⟨t, hvalue, haim, hreaches, -⟩ := hrelative (by decide) (by decide +kernel)
  exact ⟨hasm, t, hvalue, haim, hreaches⟩

/-- A jump to a number in front of the flash. -/
def jumpInFront : Program where
  flash := { slots := #[some { op := .RJMP, k := -2 }], finish := 2 }

/-- A relative transfer to a number outside the flash is accepted and goes somewhere else. The same number is
refused as the target of an absolute transfer. -/
theorem exists_target_outside : assemble "rjmp -2" = .ok jumpInFront ∧
    (0, ⟨[], .instruction "rjmp" ["-2"]⟩) ∈ locate 0 (readLines "rjmp -2") ∧
      jumpInFront.flash.fetch 0 = .ok { op := .RJMP, k := -2 } ∧ constant [] "-2" = .ok (-2) ∧
        ¬ IsWordAddress (-2) ∧ relativeTarget 0 (-2) = 0xFFFE ∧
          assemble "jmp -2" = .error ⟨1, .operand .JMP (.outOfRange "-2" 0 0xFFFF)⟩ := by
  decide +kernel

end Assembly

end StackDepth
