import Mathlib
import StackDepth.Proofs.Instruction.Encodable
import StackDepth.Proofs.Text.Numeral

/-!
# Instructions are read back

The text of an encodable instruction is a line of assembly text. Its mnemonic and operands are words, so
the line is cut into them again; the operands pick the opcode among those that share the mnemonic, and
each of them is read back as the field that it shows.

* `Assembly.ofText_disassemble`: the line is cut into mnemonic and operands;
* `Assembly.selectOpcode_operandsText`: the opcode is picked again;
* `Assembly.encode_operandsText`: the operands give the instruction.
-/

namespace StackDepth

open Text

theorem Opcode.mem_all (op : Opcode) : op ∈ all := by
  cases op <;> decide

/-- The opcode that a mnemonic leads to: the first one among those that share it. -/
def Opcode.family : Opcode → Opcode
  | LDPI | LDPD => LD
  | STPI | STPD => ST
  | LPMD | LPMPI => LPM
  | ELPMD | ELPMPI => ELPM
  | op => op

/-- Mnemonics are in upper case, and each leads to the first opcode of its family. -/
theorem Opcode.find?_mnemonic (op : Opcode) :
    Text.toUpper op.mnemonic = op.mnemonic ∧
      (all.find? fun other => other.mnemonic == op.mnemonic) = some op.family := by
  have hall : ∀ op ∈ all, Text.toUpper op.mnemonic = op.mnemonic ∧
      (all.find? fun other => other.mnemonic == op.mnemonic) = some op.family := by decide +kernel
  exact hall op op.mem_all

theorem Opcode.lookup?_mnemonic (op : Opcode) : lookup? op.mnemonic = some op.family := by
  rw [lookup?, op.find?_mnemonic.1]
  exact op.find?_mnemonic.2

/-- Only the first opcode of a family is found by name. -/
theorem Opcode.family_of_lookup {name : String} {op : Opcode} (h : lookup? name = some op) :
    op.family = op := by
  have hname : op.mnemonic = Text.toUpper name := by simpa using List.find?_some h
  rw [lookup?, ← hname] at h
  exact Option.some.inj (op.find?_mnemonic.2.symm.trans h)

/-! ### Words -/

namespace Instruction

theorem isWord_mnemonic (op : Opcode) :
    IsWord op.mnemonic.toList ∧ op.mnemonic.toList.head? ≠ some '.' := by
  have hall : ∀ op ∈ Opcode.all,
      IsWord op.mnemonic.toList ∧ op.mnemonic.toList.head? ≠ some '.' := by decide +kernel
  exact hall op op.mem_all

/-- The fixed parts of operands. -/
theorem isWord_mark :
    ∀ s ∈ ["r", "X", "Y", "Z", "?", "+", "-", ".", ".+", "Z+"], IsWord s.toList := by decide +kernel

theorem isWord_registerText (r : Nat) : IsWord (registerText r).toList := by
  rw [registerText, String.toList_append]
  exact (isWord_mark "r" (by simp)).append (Numeral.isWord_decimal r)

theorem isWord_pointerName (r : Nat) : IsWord (pointerName r).toList := by
  refine isWord_mark _ ?_
  unfold pointerName
  split
  · simp
  · split
    · simp
    · split
      · simp
      · simp

theorem isWord_pointerText (op : Opcode) (r : Nat) : IsWord (pointerText op r).toList := by
  have hname := isWord_pointerName r
  have hminus : IsWord ("-" ++ pointerName r).toList := by
    rw [String.toList_append]
    exact (isWord_mark "-" (by simp)).append hname
  have hplus : IsWord (pointerName r ++ "+").toList := by
    rw [String.toList_append]
    exact hname.append (isWord_mark "+" (by simp))
  unfold pointerText
  split
  · exact hminus
  · exact hminus
  · exact hplus
  · exact hplus
  · exact hname

theorem isWord_displaced (r : Nat) (k : Int) :
    IsWord (pointerName r ++ "+" ++ Text.decimal k).toList := by
  rw [String.toList_append, String.toList_append]
  exact ((isWord_pointerName r).append (isWord_mark "+" (by simp))).append (Numeral.isWord_decimal k)

theorem isWord_distanceText (k : Int) : IsWord (distanceText k).toList := by
  rw [distanceText, String.toList_append]
  refine IsWord.append (isWord_mark _ ?_) (Numeral.isWord_decimal _)
  split
  · simp
  · simp

theorem isWord_operandsText (i : Instruction) : ∀ o ∈ i.operandsText, IsWord o.toList := by
  have hbyte : IsWord (byteText i.k).toList := Numeral.isWord_hex 2 _
  have hword : ∀ a : BitVec 16, IsWord (wordText a).toList := fun a => Numeral.isWord_hex 4 a.toNat
  have hone : ∀ {a : String}, IsWord a.toList → ∀ o ∈ [a], IsWord o.toList :=
    fun ha o ho => List.mem_singleton.mp ho ▸ ha
  have htwo : ∀ {a b : String}, IsWord a.toList → IsWord b.toList → ∀ o ∈ [a, b], IsWord o.toList :=
    fun ha hb => List.forall_mem_cons.mpr ⟨ha, hone hb⟩
  unfold operandsText
  cases i.op.form with
  | bare => exact fun o ho => absurd ho List.not_mem_nil
  | twoRegisters | pairs => exact htwo (isWord_registerText _) (isWord_registerText _)
  | oneRegister => exact hone (isWord_registerText _)
  | immediate | wordImmediate | portIn => exact htwo (isWord_registerText _) hbyte
  | relative => exact hone (isWord_distanceText _)
  | absolute => exact hone (hword _)
  | flagRelative => exact htwo (Numeral.isWord_decimal _) (isWord_distanceText _)
  | portOut => exact htwo hbyte (isWord_registerText _)
  | portBit => exact htwo hbyte (Numeral.isWord_decimal _)
  | registerBit => exact htwo (isWord_registerText _) (Numeral.isWord_decimal _)
  | flag => exact hone (Numeral.isWord_decimal _)
  | load => exact htwo (isWord_registerText _) (isWord_pointerText _ _)
  | loadOffset => exact htwo (isWord_registerText _) (isWord_displaced _ _)
  | store => exact htwo (isWord_pointerText _ _) (isWord_registerText _)
  | storeOffset => exact htwo (isWord_displaced _ _) (isWord_registerText _)
  | loadDirect => exact htwo (isWord_registerText _) (hword _)
  | storeDirect => exact htwo (hword _) (isWord_registerText _)
  | throughZ =>
    refine htwo (isWord_registerText _) (isWord_mark _ ?_)
    split
    · simp
    · simp
    · simp

/-- The line of an instruction with operands. -/
theorem toList_disassemble {i : Instruction} (h : i.operandsText ≠ []) :
    i.disassemble.toList =
      i.op.mnemonic.toList ++ ' ' :: commaJoin (i.operandsText.map String.toList) := by
  obtain ⟨o, os, hos⟩ := List.exists_cons_of_ne_nil h
  rw [disassemble, hos]
  dsimp only
  rw [String.toList_append, String.toList_append, toList_joinWith]
  simp

theorem disassemble_of_nil {i : Instruction} (h : i.operandsText = []) :
    i.disassemble = i.op.mnemonic := by
  rw [disassemble, h]

theorem isWord_of_mem_operandsText {i : Instruction} {w : List Char}
    (hw : w ∈ i.operandsText.map String.toList) : IsWord w := by
  obtain ⟨o, ho, rfl⟩ := List.mem_map.mp hw
  exact i.isWord_operandsText o ho

theorem mem_commaJoin_operandsText {i : Instruction} {c : Char}
    (hc : c ∈ commaJoin (i.operandsText.map String.toList)) : isPlain c = true ∨ c = ',' ∨ c = ' ' := by
  rcases mem_commaJoin hc with hc | hc | ⟨w, hw, hc⟩
  · exact .inr (.inl hc)
  · exact .inr (.inr hc)
  · exact .inl ((isWord_of_mem_operandsText hw).2 c hc)

theorem newline_notMem_disassemble (i : Instruction) : '\n' ∉ i.disassemble.toList := by
  have hmnemonic : '\n' ∉ i.op.mnemonic.toList := by
    intro hmem
    exact absurd ((isWord_mnemonic i.op).1.2 _ hmem) (by decide)
  by_cases h : i.operandsText = []
  · rwa [disassemble_of_nil h]
  · rw [toList_disassemble h, List.mem_append, List.mem_cons]
    rintro (hmem | hblank | hmem)
    · exact hmnemonic hmem
    · exact absurd hblank (by decide)
    · exact absurd (mem_commaJoin_operandsText hmem) (by decide)

end Instruction

/-! ### Lines -/

namespace Assembly

/-- A line of words, commas and blanks, with a word at both ends, is a statement. -/
theorem ofText_of_solid {cs : List Char} (hends : HasSolidEnds cs)
    (hchars : ∀ c ∈ cs, isPlain c = true ∨ c = ',' ∨ c = ' ') : Line.ofText cs = ⟨[], .ofText cs⟩ := by
  have hne : ∀ c ∈ cs, c ≠ ';' ∧ c ≠ '/' ∧ c ≠ ':' := by
    intro c hc
    refine ⟨?_, ?_, ?_⟩
    · rintro rfl
      exact absurd (hchars _ hc) (by decide)
    · rintro rfl
      exact absurd (hchars _ hc) (by decide)
    · rintro rfl
      exact absurd (hchars _ hc) (by decide)
  have hstrip : stripComment cs = cs := by
    have htake : cs.takeWhile (· ≠ ';') = cs :=
      List.takeWhile_eq_self_iff.mpr fun c hc => decide_eq_true (hne c hc).1
    rw [stripComment, htake, beforeDouble_of_not_mem fun hmem => (hne '/' hmem).2.1 rfl]
  have hcut : cutWith? (· == ':') cs = none :=
    cutWith?_of_none fun c hc => beq_false_of_ne (hne c hc).2.2
  unfold Line.ofText
  simp only [hstrip, splitLabels, hends.trimList, hcut]

theorem not_gap_of_isWord {m : List Char} (hm : IsWord m) :
    ∀ c ∈ m, (c == ' ' || c == '\t') = false := by
  intro c hc
  rw [ne_of_isPlain (hm.2 c hc) (by decide), ne_of_isPlain (hm.2 c hc) (by decide)]
  rfl

/-- A word alone is a mnemonic. -/
theorem ofText_word {m : List Char} (hm : IsWord m) (hdot : m.head? ≠ some '.') :
    Line.ofText m = ⟨[], .instruction (String.ofList m) []⟩ := by
  have hempty : m.isEmpty = false := List.isEmpty_eq_false_iff.mpr hm.1
  rw [ofText_of_solid hm.hasSolidEnds fun c hc => .inl (hm.2 c hc), Statement.ofText]
  simp only [hempty, cutWith?_of_none (not_gap_of_isWord hm), hdot, Bool.false_eq_true, if_false]
  rfl

/-- The first blank ends the mnemonic or the name of a directive. -/
theorem ofText_spaced {m rest : List Char} (hm : IsWord m) (hne : rest ≠ []) (hends : HasSolidEnds rest)
    (hchars : ∀ c ∈ rest, isPlain c = true ∨ c = ',' ∨ c = ' ') :
    Line.ofText (m ++ ' ' :: rest) =
      ⟨[], if m.head? = some '.' then .directive (String.ofList m) (String.ofList rest)
        else .instruction (String.ofList m) (splitOperands rest)⟩ := by
  have hsolid : HasSolidEnds (m ++ ' ' :: rest) := by
    refine HasSolidEnds.append hm.hasSolidEnds.1 hm.1 (fun c hc => hends.2 c ?_) (by simp)
    rw [List.getLast?_cons, List.getLast?_eq_some_getLast hne] at hc
    rwa [List.getLast?_eq_some_getLast hne]
  have hall : ∀ c ∈ m ++ ' ' :: rest, isPlain c = true ∨ c = ',' ∨ c = ' ' := by
    intro c hc
    rw [List.mem_append, List.mem_cons] at hc
    rcases hc with hc | hc | hc
    · exact .inl (hm.2 c hc)
    · exact .inr (.inr hc)
    · exact hchars c hc
  have hempty : (m ++ ' ' :: rest).isEmpty = false := by simp
  have hcut : cutWith? (fun c => c == ' ' || c == '\t') (m ++ ' ' :: rest) = some (m, rest) :=
    cutWith?_append_cons (not_gap_of_isWord hm) rfl rest
  rw [ofText_of_solid hsolid hall, Statement.ofText]
  simp only [hempty, hcut, hends.trimList, Bool.false_eq_true, if_false]

theorem ofText_directive {name rest : String} (hname : IsWord name.toList)
    (hdot : name.toList.head? = some '.') (hrest : IsWord rest.toList) :
    Line.ofText (name ++ " " ++ rest).toList = ⟨[], .directive name rest⟩ := by
  have hlist : (name ++ " " ++ rest).toList = name.toList ++ ' ' :: rest.toList := by simp
  rw [hlist, ofText_spaced hname hrest.1 hrest.hasSolidEnds fun c hc => .inl (hrest.2 c hc),
    if_pos hdot, String.ofList_toList, String.ofList_toList]

theorem splitOperands_commaJoin {os : List String} (hne : os ≠ []) (hos : ∀ o ∈ os, IsWord o.toList) :
    splitOperands (commaJoin (os.map String.toList)) = os := by
  have hwords : ∀ w ∈ os.map String.toList, IsWord w := by
    intro w hw
    obtain ⟨o, ho, rfl⟩ := List.mem_map.mp hw
    exact hos o ho
  have hempty : (commaJoin (os.map String.toList)).isEmpty = false := by
    cases os with
    | nil => exact absurd rfl hne
    | cons o os =>
      rw [List.map_cons, List.isEmpty_eq_false_iff]
      exact commaJoin_ne_nil (hos o List.mem_cons_self).1
  have hsplit := congrArg (List.map String.ofList) (splitOn_commaJoin (by simpa using hne) hwords)
  rw [List.map_map, List.map_map] at hsplit
  rw [splitOperands, if_neg (by simp [hempty])]
  exact hsplit.trans ((List.map_congr_left fun o _ => String.ofList_toList).trans (List.map_id os))

/-- The line of an instruction is cut into its mnemonic and its operands. -/
theorem ofText_disassemble (i : Instruction) :
    Line.ofText i.disassemble.toList = ⟨[], .instruction i.op.mnemonic i.operandsText⟩ := by
  obtain ⟨hm, hdot⟩ := Instruction.isWord_mnemonic i.op
  by_cases h : i.operandsText = []
  · rw [Instruction.disassemble_of_nil h, ofText_word hm hdot, String.ofList_toList, h]
  · have hne : commaJoin (i.operandsText.map String.toList) ≠ [] := by
      obtain ⟨o, os, hos⟩ := List.exists_cons_of_ne_nil h
      rw [hos]
      exact commaJoin_ne_nil (i.isWord_operandsText o (by simp [hos])).1
    have hends := hasSolidEnds_commaJoin fun w => Instruction.isWord_of_mem_operandsText (i := i) (w := w)
    rw [Instruction.toList_disassemble h,
      ofText_spaced hm hne hends fun c => Instruction.mem_commaJoin_operandsText, if_neg hdot,
      splitOperands_commaJoin h i.isWord_operandsText, String.ofList_toList]

/-! ### Picking the opcode -/

theorem pointer_pointerName {r : Nat} (hr : r ∈ [regX, regY, regZ]) :
    pointer (Instruction.pointerName r) = .ok ⟨r, .plain⟩ ∧
      pointer (Instruction.pointerName r ++ "+") = .ok ⟨r, .postIncrement⟩ ∧
      pointer ("-" ++ Instruction.pointerName r) = .ok ⟨r, .preDecrement⟩ := by
  have hall : ∀ r ∈ [regX, regY, regZ],
      pointer (Instruction.pointerName r) = .ok ⟨r, .plain⟩ ∧
        pointer (Instruction.pointerName r ++ "+") = .ok ⟨r, .postIncrement⟩ ∧
        pointer ("-" ++ Instruction.pointerName r) = .ok ⟨r, .preDecrement⟩ := by decide +kernel
  exact hall r hr

/-- A displacement is read back behind the name of its pointer. -/
theorem pointer_displaced {r : Nat} (hr : r ∈ [regY, regZ]) {k : Int} (hlow : 0 ≤ k) (hhigh : k ≤ 63) :
    pointer (Instruction.pointerName r ++ "+" ++ Text.decimal k) = .ok ⟨r, .displaced k⟩ := by
  obtain ⟨q, rfl⟩ := Int.eq_ofNat_of_zero_le hlow
  have hdigits : (Text.decimal q).toList = Nat.toDigits 10 q := String.toList_ofList
  have hparse : Numeral.parseList (Nat.toDigits 10 q) = .ok (q : Int) :=
    (Numeral.parseList_decimal (by omega)).1
  obtain ⟨d, ds, hcons⟩ := List.exists_cons_of_ne_nil (Nat.toDigits_ne_nil (n := q) (b := 10))
  have hupper : ∀ c : Char, Text.upper c = c → (Instruction.pointerName r).toList = [c] →
      (toUpper (trim (Instruction.pointerName r ++ "+" ++ Text.decimal q))).toList =
        c :: '+' :: Nat.toDigits 10 q := by
    intro c hc hname
    have hplus : Text.upper '+' = '+' := by decide
    rw [toUpper, String.toList_map, trim, String.toList_ofList,
      (Instruction.isWord_displaced r q).hasSolidEnds.trimList, String.toList_append,
      String.toList_append, hname, hdigits, List.map_append, List.map_append,
      Numeral.map_upper_toDigits]
    simp [hc, hplus]
  have hmode : ∀ base text, base ≠ regX →
      pointerMode base text ('+' :: Nat.toDigits 10 q) = .ok (.displaced q) := by
    intro base text hbase
    rw [hcons, pointerMode, if_neg hbase, ← hcons, hparse]
    · exact if_pos ⟨hlow, hhigh⟩
    · simp
  rcases List.mem_pair.mp hr with rfl | rfl
  · rw [pointer, hupper 'Y' (by decide) rfl]
    change (pointerMode regY _ ('+' :: Nat.toDigits 10 q)).map (Pointer.mk regY) = _
    rw [hmode regY _ (by decide)]
    rfl
  · rw [pointer, hupper 'Z' (by decide) rfl]
    change (pointerMode regZ _ ('+' :: Nat.toDigits 10 q)).map (Pointer.mk regZ) = _
    rw [hmode regZ _ (by decide)]
    rfl

theorem byPointer_of_pointer {s : String} {p : Pointer} (h : pointer s = .ok p)
    (variant : PointerMode → Opcode) : byPointer variant s = .ok (variant p.mode) := by
  rw [byPointer, h]

/-- The operands pick the opcode among those that share the mnemonic. -/
theorem selectOpcode_operandsText {i : Instruction} (hi : i.Encodable) :
    selectOpcode i.op.mnemonic i.operandsText = .ok i.op := by
  have hz : sameLetters "Z+" "Z+" = true ∧ sameLetters "Z" "Z+" = false ∧ sameLetters "Z" "Z" = true := by
    decide +kernel
  unfold selectOpcode
  rw [i.op.lookup?_mnemonic]
  obtain ⟨op, rd, rr, k, bit⟩ := i
  -- only loads, stores and reads of program memory look at the operands
  cases op
  case LD => exact byPointer_of_pointer (pointer_pointerName hi.2.2).1 loadVariant
  case LDPI => exact byPointer_of_pointer (pointer_pointerName hi.2.2).2.1 loadVariant
  case LDPD => exact byPointer_of_pointer (pointer_pointerName hi.2.2).2.2 loadVariant
  case LDD =>
    obtain ⟨-, -, hr, hlow, hhigh⟩ := hi
    exact byPointer_of_pointer (pointer_displaced hr hlow hhigh) loadVariant
  case ST => exact byPointer_of_pointer (pointer_pointerName hi.2.2).1 storeVariant
  case STPI => exact byPointer_of_pointer (pointer_pointerName hi.2.2).2.1 storeVariant
  case STPD => exact byPointer_of_pointer (pointer_pointerName hi.2.2).2.2 storeVariant
  case STD =>
    obtain ⟨-, -, hr, hlow, hhigh⟩ := hi
    exact byPointer_of_pointer (pointer_displaced hr hlow hhigh) storeVariant
  case LPMD | ELPMD =>
    simp [Opcode.family, Instruction.operandsText, Opcode.form, readVariant, hz]
  case LPMPI | ELPMPI =>
    simp [Opcode.family, Instruction.operandsText, Opcode.form, readVariant, hz]
  all_goals rfl

/-! ### Reading the operands -/

theorem register_registerText {r : Nat} (hr : r < 32) : register (Instruction.registerText r) = .ok r := by
  have hall : ∀ r < 32, register (Instruction.registerText r) = .ok r := by decide +kernel
  exact hall r hr

theorem constantIn_of_parse {s : String} {v low high : Int} (h : Numeral.parse s = .ok v)
    (hlow : low ≤ v) (hhigh : v ≤ high) : constantIn [] s low high = .ok v := by
  have hconstant : constant [] s = .ok v := by
    unfold constant
    simp only [List.lookup_nil, h]
  unfold constantIn
  rw [hconstant]
  exact if_pos ⟨hlow, hhigh⟩

theorem parse_byteText {k : Int} (hlow : 0 ≤ k) (hhigh : k ≤ 255) :
    Numeral.parse (Instruction.byteText k) = .ok k := by
  have hnat : ((BitVec.ofInt 8 k).toNat : Int) = k := by
    rw [BitVec.toNat_ofInt]
    omega
  have hparse := Numeral.parse_hex 2 (n := (BitVec.ofInt 8 k).toNat) (by omega)
  rwa [hnat] at hparse

theorem parse_wordText (a : BitVec 16) : Numeral.parse (Instruction.wordText a) = .ok (a.toNat : Int) :=
  Numeral.parse_hex 4 (by have := a.isLt; omega)

theorem toNat_ofInt_word {k : Int} (hlow : 0 ≤ k) (hhigh : k ≤ 0xFFFF) :
    ((BitVec.ofInt 16 k).toNat : Int) = k := by
  rw [BitVec.toNat_ofInt]
  omega

theorem constantIn_byteText {k low high : Int} (hlow : low ≤ k) (hhigh : k ≤ high) (hzero : 0 ≤ k)
    (hbyte : k ≤ 255) : constantIn [] (Instruction.byteText k) low high = .ok k :=
  constantIn_of_parse (parse_byteText hzero hbyte) hlow hhigh

theorem constantIn_wordText {k : Int} (hlow : 0 ≤ k) (hhigh : k ≤ 0xFFFF) :
    constantIn [] (Instruction.wordText (BitVec.ofInt 16 k)) 0 0xFFFF = .ok k := by
  have hparse := parse_wordText (BitVec.ofInt 16 k)
  rw [toNat_ofInt_word hlow hhigh] at hparse
  exact constantIn_of_parse hparse hlow hhigh

theorem bitNumber_decimal {b : Nat} (hb : b < 8) : bitNumber [] (Text.decimal b) = .ok b := by
  have hparse : Numeral.parse (Text.decimal b) = .ok (b : Int) := Numeral.parse_decimal (by omega)
  unfold bitNumber
  rw [constantIn_of_parse hparse (by omega) (by omega)]
  rfl

theorem absoluteWord_wordText {k : Int} (hlow : 0 ≤ k) (hhigh : k ≤ 0x7FFF) :
    absoluteWord [] (Instruction.wordText (absoluteTarget k)) = .ok k := by
  unfold absoluteWord absoluteTarget
  rw [constantIn_wordText (by omega) (by omega)]
  change (if 2 * k % 2 = 0 then Except.ok (2 * k / 2) else _) = _
  rw [if_pos (by omega), Int.mul_ediv_cancel_left k (by decide)]

/-- The distance of a relative transfer is shown in bytes, behind a dot and a sign. -/
theorem toList_distanceText {k : Int} (hlow : -2048 ≤ k) (hhigh : k < 2048) :
    (Instruction.distanceText k).toList =
      '.' :: (if 0 ≤ k then '+' else '-') :: Nat.toDigits 10 (2 * k).natAbs := by
  have hwrap : wrap64 (2 * k) = 2 * k := by
    refine Int.bmod_eq_of_le ?_ ?_
    · omega
    · omega
  have hdot : ".".toList = ['.'] ∧ "+".toList = ['+'] ∧ "-".toList = ['-'] ∧ "".toList = [] := by simp
  rw [Instruction.distanceText, hwrap, String.toList_append, String.toList_append, hdot.1]
  split
  · next hpos =>
    obtain ⟨m, hm⟩ := Int.eq_ofNat_of_zero_le (show 0 ≤ 2 * k by omega)
    rw [hdot.2.1, hm]
    change _ ++ (String.ofList (Nat.toDigits 10 m)).toList = _
    rw [String.toList_ofList]
    rfl
  · next hneg =>
    obtain ⟨m, hm⟩ := Int.eq_negSucc_of_lt_zero (show 2 * k < 0 by omega)
    rw [hdot.2.2.2, hm, Text.decimal, String.toList_append, hdot.2.2.1, String.toList_ofList]
    rfl

theorem relativeWords_distanceText {k limit : Int} (pc : Address) (hlow : -limit ≤ k) (hhigh : k < limit)
    (hlimit : limit ≤ 2048) : relativeWords [] (Instruction.distanceText k) pc limit = .ok k := by
  have hlist := toList_distanceText (k := k) (by omega) (by omega)
  have htrim : Text.trim (Instruction.distanceText k) = Instruction.distanceText k := by
    rw [Text.trim, (Instruction.isWord_distanceText k).hasSolidEnds.trimList, String.ofList_toList]
  have hparse : Numeral.parseList
      ((if 0 ≤ k then '+' else '-') :: Nat.toDigits 10 (2 * k).natAbs) = .ok (2 * k) := by
    have hdecimal := Numeral.parseList_decimal (n := (2 * k).natAbs) (by omega)
    split
    · rw [hdecimal.2.1]
      congr 1
      omega
    · rw [hdecimal.2.2]
      congr 1
      omega
  have hdistance : distance? (Instruction.distanceText k).toList =
      some ((if 0 ≤ k then '+' else '-') :: Nat.toDigits 10 (2 * k).natAbs) := by
    rw [hlist, distance?, if_pos]
    split
    · exact .inl rfl
    · exact .inr rfl
  unfold relativeWords
  simp only [htrim, hdistance, hparse]
  rw [if_pos (by omega), Int.mul_ediv_cancel_left k (by decide)]
  exact if_pos ⟨hlow, hhigh⟩

theorem distanceLimit_le (op : Opcode) : distanceLimit op ≤ 2048 := by
  rw [distanceLimit_eq]
  split <;> decide

/-- A pointer without displacement is read back with whatever sign its opcode puts to it. -/
theorem pointer_pointerText (op : Opcode) {r : Nat} (hr : r ∈ [regX, regY, regZ]) :
    ∃ p : Pointer, pointer (Instruction.pointerText op r) = .ok p ∧ p.base = r ∧ p.offset = 0 := by
  obtain ⟨hplain, hpost, hpre⟩ := pointer_pointerName hr
  unfold Instruction.pointerText
  split
  · exact ⟨_, hpre, rfl, rfl⟩
  · exact ⟨_, hpre, rfl, rfl⟩
  · exact ⟨_, hpost, rfl, rfl⟩
  · exact ⟨_, hpost, rfl, rfl⟩
  · exact ⟨_, hplain, rfl, rfl⟩

theorem ok_bind {ε α β : Type} (a : α) (f : α → Except ε β) : (Except.ok a >>= f) = f a := rfl

theorem require_of {p : Bool} (hp : p = true) (e : OperandError) : require p e = .ok () := if_pos hp

/-- The operands give the instruction back, by the form of its opcode. -/
theorem encode_operandsText {i : Instruction} (hi : i.Encodable) (pc : Address) :
    encode [] pc i.op i.operandsText = .ok i := by
  unfold Instruction.Encodable at hi
  unfold encode Instruction.operandsText
  cases hform : i.op.form <;> simp only [hform] at hi ⊢
  case bare => exact congrArg Except.ok hi.symm
  case twoRegisters =>
    obtain ⟨heq, hrd, hrr, hupper⟩ := hi
    simp only [register_registerText hrd, register_registerText hrr, ok_bind]
    cases hlimit : upperLimit? i.op with
    | none => exact congrArg Except.ok heq.symm
    | some last =>
      have hupper := hupper last hlimit
      dsimp only
      rw [require_of]
      · exact congrArg Except.ok heq.symm
      · simpa [and_assoc] using hupper
  case pairs =>
    obtain ⟨heq, hrd, hrr, heven⟩ := hi
    simp only [register_registerText hrd, register_registerText hrr, ok_bind]
    rw [require_of]
    · exact congrArg Except.ok heq.symm
    · simpa using heven
  case oneRegister =>
    obtain ⟨heq, hrd, hser⟩ := hi
    simp only [register_registerText hrd, ok_bind]
    rw [require_of]
    · exact congrArg Except.ok heq.symm
    · simpa [imp_iff_not_or] using hser
  case immediate =>
    obtain ⟨heq, hupper, hrd, hlow, hhigh⟩ := hi
    have hmod : i.k % 256 = i.k := by omega
    simp only [register_registerText hrd, constantIn_byteText (by omega : -128 ≤ i.k) hhigh hlow hhigh,
      ok_bind, hmod]
    rw [require_of]
    · exact congrArg Except.ok heq.symm
    · simpa using hupper
  case wordImmediate =>
    obtain ⟨heq, hupper, hrd, heven, hlow, hhigh⟩ := hi
    simp only [register_registerText hrd, constantIn_byteText hlow hhigh hlow (by omega), ok_bind]
    rw [require_of]
    · exact congrArg Except.ok heq.symm
    · simpa using And.intro hupper heven
  case relative =>
    obtain ⟨heq, hlow, hhigh⟩ := hi
    rw [relativeWords_distanceText pc hlow hhigh (distanceLimit_le i.op)]
    exact congrArg Except.ok heq.symm
  case absolute =>
    obtain ⟨heq, hlow, hhigh⟩ := hi
    rw [absoluteWord_wordText hlow hhigh]
    exact congrArg Except.ok heq.symm
  case flagRelative =>
    obtain ⟨heq, hbit, hlow, hhigh⟩ := hi
    rw [bitNumber_decimal hbit, relativeWords_distanceText pc hlow hhigh (by decide)]
    exact congrArg Except.ok heq.symm
  case portIn | portOut =>
    obtain ⟨heq, hr, hlow, hhigh⟩ := hi
    rw [register_registerText hr, constantIn_byteText hlow hhigh hlow (by omega)]
    exact congrArg Except.ok heq.symm
  case portBit =>
    obtain ⟨heq, hlow, hhigh, hbit⟩ := hi
    rw [bitNumber_decimal hbit, constantIn_byteText hlow hhigh hlow (by omega)]
    exact congrArg Except.ok heq.symm
  case registerBit =>
    obtain ⟨heq, hrr, hbit⟩ := hi
    rw [register_registerText hrr, bitNumber_decimal hbit]
    exact congrArg Except.ok heq.symm
  case flag =>
    obtain ⟨heq, hbit⟩ := hi
    rw [bitNumber_decimal hbit]
    exact congrArg Except.ok heq.symm
  case load | store =>
    obtain ⟨heq, hr, hbase⟩ := hi
    obtain ⟨p, hpointer, hp, hoffset⟩ := pointer_pointerText i.op hbase
    simp only [register_registerText hr, hpointer, hp, hoffset, ok_bind]
    exact congrArg Except.ok heq.symm
  case loadOffset | storeOffset =>
    obtain ⟨heq, hr, hbase, hlow, hhigh⟩ := hi
    rw [register_registerText hr, pointer_displaced hbase hlow hhigh]
    exact congrArg Except.ok heq.symm
  case loadDirect | storeDirect =>
    obtain ⟨heq, hr, hlow, hhigh⟩ := hi
    rw [register_registerText hr, constantIn_wordText hlow hhigh]
    exact congrArg Except.ok heq.symm
  case throughZ =>
    obtain ⟨heq, hrd⟩ := hi
    rw [register_registerText hrd]
    exact congrArg Except.ok heq.symm

end Assembly

end StackDepth
