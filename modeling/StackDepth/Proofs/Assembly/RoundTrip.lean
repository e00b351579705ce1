import Mathlib
import StackDepth.Proofs.Assembly.Selection

/-!
# Disassembly and assembly

The text of an encodable instruction assembles to this instruction alone, at address 0. A program is
written as a text of two lines for each instruction, a directive that moves to its address and the
instruction itself. The first pass of the assembler gets the addresses and opcodes back from these lines.
The second one reads the operands, which show no labels, and places instructions of the image until the
image is complete.

* `Assembly.assemble_disassemble`: one instruction;
* `Assembly.assemble_source`: a program, up to its labels.
-/

namespace StackDepth

/-- The program as assembly text: every instruction behind a directive that moves to its address, which is
written as `spell` says. Labels are left out. -/
def Program.source (spell : Address → String) (p : Program) : String :=
  Text.unlines (p.flash.toList.flatMap fun (pc, i) => [".org " ++ spell pc, i.disassemble])

namespace Assembly

/-! ### Addresses as text -/

/-- Addresses are written as one word, which is read back. -/
structure ReadsBack (spell : Address → String) : Prop where
  /-- An address is written without blanks and separators. -/
  isWord : ∀ a, Text.IsWord (spell a).toList
  /-- What is written is the number of the address. -/
  parse : ∀ a, Numeral.parse (spell a) = .ok (a.toNat : Int)

theorem readsBack_wordText : ReadsBack Instruction.wordText where
  isWord a := Numeral.isWord_hex 4 a.toNat
  parse := parse_wordText

theorem readsBack_decimal : ReadsBack fun a => Text.decimal a.toNat where
  isWord a := Numeral.isWord_decimal a.toNat
  parse a := Numeral.parse_decimal (by have := a.isLt; omega)

/-! ### The first pass -/

variable {spell : Address → String} {flash : Flash} {i : Instruction} {w : Nat}

/-- The two lines of the instruction at a word. -/
def sourceLines (spell : Address → String) (e : Nat × Instruction) : List Line :=
  [⟨[], .directive ".org" (spell (Flash.address e.1))⟩,
    ⟨[], .instruction e.2.op.mnemonic e.2.operandsText⟩]

theorem isWord_org :
    ".org " = ".org" ++ " " ∧ Text.IsWord ".org".toList ∧ ".org".toList.head? = some '.' := by
  decide +kernel

theorem ofText_origin (hspell : ReadsBack spell) (a : Address) :
    Line.ofText (".org " ++ spell a).toList = ⟨[], .directive ".org" (spell a)⟩ := by
  obtain ⟨hsplit, hword, hdot⟩ := isWord_org
  rw [hsplit]
  exact ofText_directive hword hdot (hspell.isWord a)

theorem newline_notMem_origin (hspell : ReadsBack spell) (a : Address) :
    '\n' ∉ (".org " ++ spell a).toList := by
  rw [String.toList_append, List.mem_append]
  rintro (hmem | hmem)
  · exact absurd hmem (by decide +kernel)
  · exact absurd ((hspell.isWord a).2 _ hmem) (by decide)

theorem readLines_source (hspell : ReadsBack spell) (p : Program) :
    readLines (p.source spell) = p.flash.entries.flatMap (sourceLines spell) ++ [⟨[], .nothing⟩] := by
  rw [readLines, Program.source, Text.lines_unlines fun l hl => ?_, List.map_append, List.map_map,
    List.map_flatMap, Flash.toList_eq, List.flatMap_map]
  · simp only [List.map_cons, List.map_nil, Function.comp_apply, ofText_origin hspell,
      ofText_disassemble]
    rfl
  · obtain ⟨⟨a, i⟩, -, hl⟩ := List.mem_flatMap.mp hl
    rcases List.mem_pair.mp hl with rfl | rfl
    · exact newline_notMem_origin hspell a
    · exact i.newline_notMem_disassemble

theorem addLine_origin (hspell : ReadsBack spell) (l : Layout) (n : Nat) {a : Address}
    (ha : a.toNat % 2 = 0) :
    l.addLine n ⟨[], .directive ".org" (spell a)⟩ = .ok { l with counter := a.toNat } := by
  have horg : sameLetters ".org" ".org" = true := by simp [sameLetters]
  have hlt := a.isLt
  change l.addStatement n (.directive ".org" (spell a)) = _
  rw [Layout.addStatement, if_pos horg, Layout.origin, hspell.parse]
  exact if_pos ⟨by omega, by rw [flashSize]; omega, by omega⟩

theorem addLine_instruction (hi : i.Encodable) {l : Layout} (n : Nat)
    (hfits : l.counter + i.size ≤ flashSize) :
    l.addLine n ⟨[], .instruction i.op.mnemonic i.operandsText⟩ =
      .ok { l with
        counter := l.counter + i.size
        pending := ⟨n, BitVec.ofNat 16 l.counter, i.op, i.operandsText⟩ :: l.pending } := by
  change l.addStatement n (.instruction i.op.mnemonic i.operandsText) = _
  rw [Layout.addStatement, selectOpcode_operandsText hi]
  exact if_neg (Nat.not_lt.mpr hfits)

/-- What waits for the second pass is the instruction at a word. -/
def Pending.Shows (p : Pending) (e : Nat × Instruction) : Prop :=
  p.pc = Flash.address e.1 ∧ p.op = e.2.op ∧ p.operands = e.2.operandsText

/-- The first pass lays every instruction out at its address. -/
theorem addLines_sourceLines (hspell : ReadsBack spell) (hflash : flash.Tidy)
    {es : List (Nat × Instruction)} (hes : ∀ e ∈ es, flash.at? e.1 = some e.2 ∧ e.2.Encodable)
    (l : Layout) (n : Nat) :
    ∃ l' ps, l.addLines n (es.flatMap (sourceLines spell) ++ [⟨[], .nothing⟩]) = .ok l' ∧
      l'.labels = l.labels ∧ l'.pending = ps.reverse ++ l.pending ∧ List.Forall₂ Pending.Shows ps es := by
  induction es generalizing l n with
  | nil => exact ⟨l, [], rfl, rfl, rfl, .nil⟩
  | cons e es ih =>
    obtain ⟨w, i⟩ := e
    obtain ⟨hat, hi⟩ := hes (w, i) List.mem_cons_self
    have haddress := hflash.toNat_address hat
    have hfits := hflash.address_lt hat
    obtain ⟨l', ps, hlines, hlabels, hpending, hshows⟩ := ih (fun e he => hes e (List.mem_cons_of_mem _ he))
      { l with
        counter := 2 * w + i.size
        pending := ⟨n + 1, Flash.address w, i.op, i.operandsText⟩ :: l.pending } (n + 2)
    refine ⟨l', ⟨n + 1, Flash.address w, i.op, i.operandsText⟩ :: ps, ?_, hlabels, ?_,
      .cons ⟨rfl, rfl, rfl⟩ hshows⟩
    · -- the first line moves the counter to the address, and the second one finds it there
      rw [List.flatMap_cons, List.append_assoc, sourceLines, List.cons_append, List.cons_append,
        List.nil_append, Layout.addLines, addLine_origin hspell l n (by omega)]
      dsimp only
      rw [Layout.addLines, addLine_instruction hi (n + 1) (by rw [haddress]; exact hfits), haddress]
      exact hlines
    · rw [hpending, List.reverse_cons, List.append_assoc, List.singleton_append]

/-! ### The second pass -/

/-- The second pass places instructions that are missing from a part of an image. -/
theorem foldlM_placePending (hflash : flash.Tidy) {ps : List Pending} {es : List (Nat × Instruction)}
    (hshows : List.Forall₂ Pending.Shows ps es)
    (hes : ∀ e ∈ es, flash.at? e.1 = some e.2 ∧ e.2.Encodable) (hnodup : (es.map Prod.fst).Nodup)
    {f : Flash} (hf : f.PartOf flash) (hmissing : ∀ e ∈ es, f.at? e.1 = none) :
    ∃ g, ps.foldlM (placePending []) f = .ok g ∧ g.PartOf flash ∧
      (∀ e ∈ es, g.at? e.1 = some e.2) ∧ ∀ w i, f.at? w = some i → g.at? w = some i := by
  induction hshows generalizing f with
  | nil => exact ⟨f, rfl, hf, fun e he => absurd he List.not_mem_nil, fun w i hi => hi⟩
  | @cons p e ps es hp _ ih =>
    obtain ⟨w, i⟩ := e
    obtain ⟨hpc, hop, hoperands⟩ := hp
    obtain ⟨hat, hi⟩ := hes (w, i) List.mem_cons_self
    obtain ⟨hnotMem, hnodup⟩ := List.nodup_cons.mp hnodup
    obtain ⟨f', hplace, hf', hat'⟩ := hf.place hflash hat (hmissing (w, i) List.mem_cons_self)
    have hstep : placePending [] f p = .ok f' := by
      refine placePending_eq_ok_iff.mpr ⟨i, ?_, by rwa [hpc]⟩
      rw [hop, hoperands]
      exact encode_operandsText hi p.pc
    have hmissing' : ∀ e ∈ es, f'.at? e.1 = none := by
      intro e he
      have hne : e.1 ≠ w := fun heq => hnotMem (List.mem_map.mpr ⟨e, he, heq⟩)
      rw [hat', if_neg hne]
      exact hmissing e (List.mem_cons_of_mem _ he)
    obtain ⟨g, hfold, hg, hplaced, hkept⟩ :=
      ih (fun e he => hes e (List.mem_cons_of_mem _ he)) hnodup hf' hmissing'
    refine ⟨g, ?_, hg, List.forall_mem_cons.mpr ⟨hkept w i (by rw [hat', if_pos rfl]), hplaced⟩, ?_⟩
    · rw [List.foldlM_cons, hstep]
      exact hfold
    · intro v j hj
      refine hkept v j ?_
      rw [hat', if_neg, hj]
      rintro rfl
      rw [hmissing _ List.mem_cons_self] at hj
      exact absurd hj (by simp)

/-! ### Both passes -/

/-- The text of a program assembles to the program without its labels. -/
theorem assemble_source (hspell : ReadsBack spell) {text : String} {p : Program}
    (h : assemble text = .ok p) : assemble (p.source spell) = .ok { p with labels := [] } := by
  have htidy := tidy_assemble h
  have hes : ∀ e ∈ p.flash.entries, p.flash.at? e.1 = some e.2 ∧ e.2.Encodable := by
    rintro ⟨w, i⟩ he
    have hat := Flash.mem_entries.mp he
    exact ⟨hat, encodable_assemble h hat⟩
  have hindirect : p.indirect = [] := by
    obtain ⟨layout, -, h⟩ := exists_of_bind_ok h
    obtain ⟨flash, -, h⟩ := exists_of_bind_ok h
    cases h
    rfl
  obtain ⟨l, ps, hlines, hlabels, hpending, hshows⟩ := addLines_sourceLines hspell htidy hes {} 1
  obtain ⟨g, hfold, hg, hplaced, -⟩ := foldlM_placePending htidy hshows hes p.flash.nodup_entries
    (Flash.partOf_empty p.flash) fun e _ => Flash.at?_empty e.1
  obtain rfl : g = p.flash :=
    hg.eq_of_at htidy fun w i hat => hplaced (w, i) (Flash.mem_entries.mpr hat)
  have hreverse : l.pending.reverse = ps := by simp [hpending]
  rw [assemble, readLines_source hspell, hlines, ok_bind, hreverse, hlabels]
  rw [hfold, ok_bind, hindirect]

/-- The text of an instruction assembles to this instruction alone. -/
theorem assemble_disassemble (hi : i.Encodable) :
    assemble i.disassemble = .ok (.ofInstructions [i]) := by
  have hsize := i.size_cases
  have hlayout := addLine_instruction hi (l := {}) 1 (by rw [flashSize]; dsimp only; omega)
  have hstep : placePending [] .empty ⟨1, 0#16, i.op, i.operandsText⟩ = .ok (Flash.empty.stored 0 i) :=
    placePending_eq_ok_iff.mpr ⟨i, encode_operandsText hi 0#16, Flash.place_empty i⟩
  rw [assemble, readLines, Text.lines_of_not_mem i.newline_notMem_disassemble, List.map_singleton,
    ofText_disassemble, Layout.addLines, hlayout]
  change (List.foldlM (placePending []) .empty [⟨1, 0#16, i.op, i.operandsText⟩] >>= _) = _
  rw [List.foldlM_cons, hstep, Program.ofInstructions, Flash.ofInstructions_singleton]
  rfl

/-- Disassembly and assembly are inverse: what the assembler accepts consists of encodable instructions,
every encodable instruction is assembled from its text, and the text of a program, with addresses in base
sixteen or ten, gives its image back. -/
theorem assemble_inverse_disassemble :
    (∀ text p, assemble text = .ok p → ∀ pc i, (pc, i) ∈ p.flash.toList → i.Encodable) ∧
      (∀ i : Instruction, i.Encodable →
        assemble i.disassemble = .ok (.ofInstructions [i]) ∧
          (Program.ofInstructions [i]).flash.toList = [(0#16, i)]) ∧
      ∀ text p, assemble text = .ok p →
        ∀ spell ∈ [Instruction.wordText, fun a => Text.decimal a.toNat],
          assemble (p.source spell) = .ok { p with labels := [] } := by
  refine ⟨fun text p h pc i hmem => ?_, fun i hi => ?_, fun text p h spell hspell => ?_⟩
  · obtain ⟨w, hat, -⟩ := Flash.mem_toList.mp hmem
    exact encodable_assemble h hat
  · exact ⟨assemble_disassemble hi, Flash.toList_ofInstructions_singleton i⟩
  · rcases List.mem_pair.mp hspell with rfl | rfl
    · exact assemble_source readsBack_wordText h
    · exact assemble_source readsBack_decimal h

/-- A store with a displacement at address 0 and, behind a gap, an immediate and a jump back. -/
def gappedProgram : Program where
  flash :=
    { slots := #[some { op := .STD, rd := regZ, rr := 9, k := 1 }, none, none, none,
        some { op := .LDI, rd := 16, k := 255 }, some { op := .JMP }, none]
      finish := 14 }
  labels := [("go", 0#16)]

theorem assemble_inverse_disassemble_of_gap :
    assemble "go: std z+1, r9\n.org 8\nldi r16, -1\njmp go" = .ok gappedProgram ∧
      (∀ pc i, (pc, i) ∈ gappedProgram.flash.toList → i.Encodable) ∧
      assemble (Instruction.disassemble { op := .LDI, rd := 16, k := 255 }) =
        .ok (.ofInstructions [{ op := .LDI, rd := 16, k := 255 }]) ∧
      assemble (gappedProgram.source Instruction.wordText) = .ok { gappedProgram with labels := [] } := by
  have hasm : assemble "go: std z+1, r9\n.org 8\nldi r16, -1\njmp go" = .ok gappedProgram := by
    decide +kernel
  obtain ⟨hencodable, hsingle, hsource⟩ := assemble_inverse_disassemble
  refine ⟨hasm, hencodable _ _ hasm, (hsingle _ ?_).1, hsource _ _ hasm _ (by simp)⟩
  exact ⟨rfl, by decide, by decide, by decide, by decide⟩

end Assembly

end StackDepth
