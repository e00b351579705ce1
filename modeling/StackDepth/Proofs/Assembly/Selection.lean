import Mathlib
import StackDepth.Proofs.Assembly.Disassembly
import StackDepth.Proofs.Assembly.Ranges

/-!
# Loads and stores of assembled programs

The pointer operand of a load or store is read twice: the first pass picks the variant of the mnemonic by
it, the second one takes base and displacement from it. Between the passes every instruction keeps the
operands by which its opcode was picked, so base and displacement fit the variant, and with
`Assembly.encodable_encode` for the other forms every instruction of an assembled program is encodable.

* `Assembly.encodable_of_selected`: one instruction;
* `Assembly.encodable_assemble`, `Assembly.tidy_assemble`: the image of an assembled program.
-/

namespace StackDepth

/-- Loads and stores are found by name as the first of their family or with a displacement. -/
theorem Opcode.mem_of_takesPointer {op : Opcode} (hform : op.form.takesPointer = true)
    (hfamily : op.family = op) : op ∈ [LD, LDD, ST, STD] := by
  have hall : ∀ op ∈ all, op.form.takesPointer = true → op.family = op → op ∈ [LD, LDD, ST, STD] := by
    decide +kernel
  exact hall op op.mem_all hform hfamily

namespace Assembly

variable {labels : Labels} {s : String}

/-! ### Pointers -/

theorem pointerBase_mem {c : Char} {r : Nat} (h : pointerBase? c = some r) : r ∈ [regX, regY, regZ] := by
  unfold pointerBase? at h
  split at h
  · simp [Option.some.inj h]
  · simp [Option.some.inj h]
  · simp [Option.some.inj h]
  · cases h

theorem displacement_of_pointerMode {base : Nat} {cs : List Char} {q : Int}
    (h : pointerMode base s cs = .ok (.displaced q)) : base ≠ regX ∧ 0 ≤ q ∧ q ≤ 63 := by
  unfold pointerMode at h
  split at h
  · cases h
  · cases h
  · split at h
    · cases h
    · next hbase =>
      split at h
      · cases h
      · split at h
        · next hrange =>
          cases h
          exact ⟨hbase, hrange⟩
        · cases h
  · cases h

/-- A pointer is one of three, and only two of them take a displacement. -/
theorem pointer_range {p : Pointer} (h : pointer s = .ok p) :
    p.base ∈ [regX, regY, regZ] ∧
      ∀ q, p.mode = .displaced q → p.base ∈ [regY, regZ] ∧ 0 ≤ q ∧ q ≤ 63 := by
  unfold pointer at h
  dsimp only at h
  split at h
  · cases h
  · split at h
    · cases h
    · next base hbase =>
      have hmem := pointerBase_mem hbase
      split_ifs at h
      · cases h
        exact ⟨hmem, fun q hq => absurd hq (by simp)⟩
      · obtain ⟨mode, hmode, rfl⟩ := exists_of_map_ok h
        refine ⟨hmem, ?_⟩
        rintro q rfl
        obtain ⟨hx, hq⟩ := displacement_of_pointerMode hmode
        exact ⟨(List.mem_cons.mp hmem).resolve_left hx, hq⟩

/-! ### Picking the variant -/

theorem mode_of_byPointer {variant : PointerMode → Opcode} {op : Opcode}
    (h : byPointer variant s = .ok op) : ∃ p, pointer s = .ok p ∧ variant p.mode = op := by
  unfold byPointer at h
  split at h
  · next p hp => exact ⟨p, hp, Except.ok.inj h⟩
  · cases h

theorem op_of_readVariant {mnemonic : String} {os : List String} {plain direct post op : Opcode}
    (h : readVariant mnemonic os plain direct post = .ok op) : op = plain ∨ op = direct ∨ op = post := by
  unfold readVariant at h
  split at h
  · exact .inl (Except.ok.inj h).symm
  · split_ifs at h
    · exact .inr (.inr (Except.ok.inj h).symm)
    · exact .inr (.inl (Except.ok.inj h).symm)
  · cases h

/-- The opcode of a load or store is the variant for its pointer operand. -/
theorem variant_of_selectOpcode {mnemonic : String} {os : List String} {op : Opcode}
    (h : selectOpcode mnemonic os = .ok op) (hform : op.form.takesPointer = true) :
    (∃ a b p, os = [a, b] ∧ pointer b = .ok p ∧ loadVariant p.mode = op) ∨
      ∃ a b p, os = [a, b] ∧ pointer a = .ok p ∧ storeVariant p.mode = op := by
  unfold selectOpcode at h
  split at h
  case h_1 => cases h
  case h_2 | h_3 =>
    split at h
    · next a b =>
      obtain ⟨p, hp, hop⟩ := mode_of_byPointer h
      exact .inl ⟨a, b, p, rfl, hp, hop⟩
    · cases h
  case h_4 | h_5 =>
    split at h
    · next a b =>
      obtain ⟨p, hp, hop⟩ := mode_of_byPointer h
      exact .inr ⟨a, b, p, rfl, hp, hop⟩
    · cases h
  case h_6 | h_7 => rcases op_of_readVariant h with rfl | rfl | rfl <;> cases hform
  case h_8 found hLD hLDD hST hSTD _ _ hlookup =>
    obtain rfl := Except.ok.inj h
    have hmem := Opcode.mem_of_takesPointer hform (Opcode.family_of_lookup hlookup)
    simp only [List.mem_cons, List.not_mem_nil, or_false] at hmem
    rcases hmem with hop | hop | hop | hop
    · exact (hLD hop).elim
    · exact (hLDD hop).elim
    · exact (hST hop).elim
    · exact (hSTD hop).elim

theorem load_of_encode {pc : Address} {m : PointerMode} {a b : String} {i : Instruction}
    (h : encode labels pc (loadVariant m) [a, b] = .ok i) :
    ∃ rd p, rd < 32 ∧ pointer b = .ok p ∧
      i = { op := loadVariant m, rd, rr := p.base, k := p.offset } := by
  have hencode : encode labels pc (loadVariant m) [a, b] =
      (register a >>= fun rd => pointer b >>= fun p =>
        .ok { op := loadVariant m, rd, rr := p.base, k := p.offset }) := by
    cases m <;> rfl
  rw [hencode] at h
  obtain ⟨rd, hrd, h⟩ := exists_of_bind_ok h
  obtain ⟨p, hp, h⟩ := exists_of_bind_ok h
  exact ⟨rd, p, register_lt hrd, hp, (Except.ok.inj h).symm⟩

theorem store_of_encode {pc : Address} {m : PointerMode} {a b : String} {i : Instruction}
    (h : encode labels pc (storeVariant m) [a, b] = .ok i) :
    ∃ rr p, rr < 32 ∧ pointer a = .ok p ∧
      i = { op := storeVariant m, rd := p.base, rr, k := p.offset } := by
  have hencode : encode labels pc (storeVariant m) [a, b] =
      (pointer a >>= fun p => register b >>= fun rr =>
        .ok { op := storeVariant m, rd := p.base, rr, k := p.offset }) := by
    cases m <;> rfl
  rw [hencode] at h
  obtain ⟨p, hp, h⟩ := exists_of_bind_ok h
  obtain ⟨rr, hrr, h⟩ := exists_of_bind_ok h
  exact ⟨rr, p, register_lt hrr, hp, (Except.ok.inj h).symm⟩

/-- An instruction whose operands also picked its opcode is encodable. -/
theorem encodable_of_selected {mnemonic : String} {os : List String} {op : Opcode} {pc : Address}
    {i : Instruction} (hselect : selectOpcode mnemonic os = .ok op)
    (h : encode labels pc op os = .ok i) : i.Encodable := by
  cases hform : op.form.takesPointer with
  | false => exact (encodable_encode h).2 hform
  | true =>
    rcases variant_of_selectOpcode hselect hform with
      ⟨a, b, p, rfl, hp, rfl⟩ | ⟨a, b, p, rfl, hp, rfl⟩
    · obtain ⟨rd, p', hrd, hp', rfl⟩ := load_of_encode h
      obtain rfl := Except.ok.inj (hp'.symm.trans hp)
      obtain ⟨hbase, hdisplaced⟩ := pointer_range hp
      obtain ⟨base, mode⟩ := p'
      cases mode with
      | plain | postIncrement | preDecrement => exact ⟨rfl, hrd, hbase⟩
      | displaced q => exact ⟨rfl, hrd, hdisplaced q rfl⟩
    · obtain ⟨rr, p', hrr, hp', rfl⟩ := store_of_encode h
      obtain rfl := Except.ok.inj (hp'.symm.trans hp)
      obtain ⟨hbase, hdisplaced⟩ := pointer_range hp
      obtain ⟨base, mode⟩ := p'
      cases mode with
      | plain | postIncrement | preDecrement => exact ⟨rfl, hrr, hbase⟩
      | displaced q => exact ⟨rfl, hrr, hdisplaced q rfl⟩

/-! ### The first pass -/

/-- Every instruction keeps the operands by which its opcode was picked. -/
def Layout.Selected (l : Layout) : Prop :=
  ∀ p ∈ l.pending, ∃ mnemonic, selectOpcode mnemonic p.operands = .ok p.op

theorem Layout.pending_define {l l' : Layout} {name : String} (h : l.define name = .ok l') :
    l'.pending = l.pending := by
  unfold define at h
  split_ifs at h
  cases h
  rfl

theorem Layout.Selected.addStatement {l l' : Layout} (hl : l.Selected) {n : Nat} {st : Statement}
    (h : l.addStatement n st = .ok l') : l'.Selected := by
  cases st with
  | nothing =>
    cases h
    exact hl
  | directive name rest =>
    rw [Layout.addStatement, origin] at h
    split_ifs at h
    split at h
    · cases h
    · split_ifs at h
      cases h
      exact hl
  | instruction mnemonic operands =>
    rw [Layout.addStatement] at h
    split at h
    · cases h
    · next op hop =>
      split_ifs at h
      cases h
      exact List.forall_mem_cons.mpr ⟨⟨mnemonic, hop⟩, hl⟩

theorem Layout.Selected.addLine {l l' : Layout} (hl : l.Selected) {n : Nat} {line : Line}
    (h : l.addLine n line = .ok l') : l'.Selected := by
  obtain ⟨l₁, hlabels, h⟩ := exists_of_bind_ok h
  refine Selected.addStatement (of_foldlM_ok (fun b c name _ hb hc => ?_) hl hlabels) h
  rwa [Selected, pending_define hc]

theorem Layout.Selected.addLines {l l' : Layout} (hl : l.Selected) {n : Nat} {lines : List Line}
    (h : l.addLines n lines = .ok l') : l'.Selected := by
  induction lines generalizing l n with
  | nil =>
    cases h
    exact hl
  | cons line rest ih =>
    rw [Layout.addLines] at h
    split at h
    · cases h
    · next hline => exact ih (hl.addLine hline) h

/-! ### The image -/

variable {text : String} {p : Program}

/-- Every instruction of an assembled program is encodable. -/
theorem encodable_assemble (h : assemble text = .ok p) {w : Nat} {i : Instruction}
    (hi : p.flash.at? w = some i) : i.Encodable := by
  obtain ⟨layout, hlayout, h⟩ := exists_of_bind_ok h
  obtain ⟨flash, hflash, h⟩ := exists_of_bind_ok h
  cases h
  have hempty : ({} : Layout).Selected := fun p hp => absurd hp List.not_mem_nil
  obtain ⟨pending, hmem, hencode⟩ := exists_pending hflash hi
  obtain ⟨mnemonic, hselect⟩ := hempty.addLines hlayout pending (List.mem_reverse.mp hmem)
  exact encodable_of_selected hselect hencode

theorem tidy_assemble (h : assemble text = .ok p) : p.flash.Tidy := by
  obtain ⟨layout, -, h⟩ := exists_of_bind_ok h
  obtain ⟨flash, hflash, h⟩ := exists_of_bind_ok h
  cases h
  refine of_foldlM_ok (fun f g pending _ hf hplace => ?_) Flash.tidy_empty hflash
  obtain ⟨i, -, hplace⟩ := placePending_eq_ok_iff.mp hplace
  exact hf.place hplace

end Assembly

end StackDepth
