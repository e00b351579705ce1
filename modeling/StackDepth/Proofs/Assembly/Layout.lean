import Mathlib
import StackDepth.Proofs.Assembly.Selection
import StackDepth.Proofs.Text.Split

/-!
# The layout of assembled programs

The location counter of a line says where its labels and its instruction stand. It starts at zero, an
instruction moves it by its size, and the directive for the origin sets it, also backwards. The first pass of
the assembler takes the labels down and leaves the instructions with their addresses to the second one, which
knows every label and puts each instruction where it was left. So both passes agree on where everything is.

Main statements:

* `Assembly.locate`: the lines of a text with their location counters;
* `Assembly.LaidOut`: a program stands where the counters say;
* `Assembly.Layout.Adds`: what the first pass makes of lines;
* `Assembly.placed_of_foldlM`: what the second pass makes of the instructions left to it;
* `Assembly.laidOut_assemble`: both passes.
-/

namespace StackDepth

namespace Assembly

open Text (IsWord isPlain)

variable {labels : Labels} {name : String} {a pc : Address}

/-! ### Location counters -/

/-- The location counter behind a statement. -/
def Statement.advance (counter : Nat) : Statement → Nat
  | .nothing => counter
  | .directive name rest =>
      if sameLetters name ".org" then
        match Numeral.parse rest with
        | .ok v => v.toNat
        | .error _ => counter
      else counter
  | .instruction mnemonic operands =>
      match selectOpcode mnemonic operands with
      | .ok op => counter + op.size
      | .error _ => counter

/-- Lines with their location counters, the first of which is `counter`. -/
def locate (counter : Nat) : List Line → List (Nat × Line)
  | [] => []
  | line :: rest => (counter, line) :: locate (line.statement.advance counter) rest

/-- The statement is an instruction. -/
def Statement.isInstruction : Statement → Bool
  | .instruction _ _ => true
  | _ => false

/-- The program stands where the location counters of its lines say. -/
structure LaidOut (p : Program) (lines : List (Nat × Line)) : Prop where
  /-- Every instruction is found at its counter. -/
  found : ∀ c line mnemonic operands, (c, line) ∈ lines → line.statement = .instruction mnemonic operands →
    ∃ op i, selectOpcode mnemonic operands = .ok op ∧
      encode p.labels (BitVec.ofNat 16 c) op operands = .ok i ∧ c < flashSize ∧
        p.flash.fetch (BitVec.ofNat 16 c) = .ok i
  /-- The instructions of the program are those that are found in it. -/
  listed : ∀ pc i, (pc, i) ∈ p.flash.toList ↔ p.flash.fetch pc = .ok i
  /-- There are as many of them as lines with an instruction. -/
  count_eq : p.flash.count = lines.countP fun e => e.2.statement.isInstruction
  /-- Every instruction ends before the next one starts. -/
  apart : p.flash.toList.Pairwise fun a b => a.1.toNat + a.2.size ≤ b.1.toNat
  /-- Every instruction ends inside the flash. -/
  inside : ∀ pc i, (pc, i) ∈ p.flash.toList → pc.toNat + i.size ≤ flashSize
  /-- The program ends with its last instruction. -/
  finish : p.flash.toList = [] ∧ p.flash.finish = 0 ∨
    IsGreatest {n | ∃ e ∈ p.flash.toList, n = e.1.toNat + e.2.size} p.flash.finish
  /-- Every label stands for the counter of its line. -/
  label : ∀ c line name, (c, line) ∈ lines → name ∈ line.labels → ∃ a, p.label? name = some a ∧ a.toNat = c
  /-- There are no other labels. -/
  defined : ∀ name a, p.label? name = some a → ∃ line, (a.toNat, line) ∈ lines ∧ name ∈ line.labels
  /-- Every label is defined once. -/
  once : (lines.flatMap fun e => e.2.labels).Nodup
  /-- A transfer whose target is a label goes where the label stands. -/
  transfer : ∀ c line mnemonic operands i name a, (c, line) ∈ lines →
    line.statement = .instruction mnemonic operands → p.flash.fetch (BitVec.ofNat 16 c) = .ok i →
      operands.getLast? = some name → p.label? name = some a →
        (i.op.form ∈ [.relative, .flagRelative] → relativeTarget (BitVec.ofNat 16 c) i.k = a) ∧
          (i.op.form = .absolute → absoluteTarget i.k = a)

/-! ### Names of labels -/

theorem toNat_of_isNameChar {c : Char} (h : isNameChar c = true) : 46 ≤ c.toNat ∧ c.toNat ≤ 122 := by
  simp only [isNameChar, isNameStart, Bool.or_eq_true, Bool.and_eq_true, beq_iff_eq, decide_eq_true_eq,
    Char.le_def, UInt32.le_iff_toNat_le, Char.reduceVal, UInt32.reduceToNat] at h
  rcases h with (((rfl | rfl) | h) | h) | h
  · decide
  · decide
  all_goals
    have hcode : c.val.toNat = c.toNat := rfl
    omega

theorem isPlain_of_isNameChar {c : Char} (h : isNameChar c = true) : isPlain c = true := by
  have hsolid : Text.isBlank c = false := by
    have hcode := toNat_of_isNameChar h
    simp only [Text.isBlank, Bool.or_eq_false_iff, Bool.and_eq_false_iff, decide_eq_false_iff_not,
      beq_eq_false_iff_ne]
    omega
  have hne : ∀ d ∈ [',', ';', '/', ':'], (c == d) = false := by
    have hseparator : ∀ d ∈ [',', ';', '/', ':'], isNameChar d = false := by simp [isNameChar, isNameStart]
    refine fun d hd => beq_false_of_ne ?_
    rintro rfl
    rw [hseparator c hd] at h
    cases h
  rw [isPlain, hsolid, hne ',' (by simp), hne ';' (by simp), hne '/' (by simp), hne ':' (by simp)]
  rfl

theorem isWord_of_isName {cs : List Char} (h : isName cs = true) : IsWord cs := by
  cases cs with
  | nil => cases h
  | cons c cs =>
    obtain ⟨hstart, hrest⟩ := Bool.and_eq_true_iff.mp h
    refine ⟨by simp, List.forall_mem_cons.mpr ⟨isPlain_of_isNameChar ?_, fun d hd => ?_⟩⟩
    · rw [isNameChar, hstart, Bool.true_or]
    · exact isPlain_of_isNameChar (List.all_eq_true.mp hrest d hd)

/-- A distance is no name. -/
theorem distance?_of_isName {cs : List Char} (h : isName cs = true) : distance? cs = none := by
  unfold distance?
  split
  · next c cs =>
    rw [if_neg]
    rintro (rfl | rfl) <;> simp [isName, isNameChar, isNameStart] at h
  · rfl

theorem isName_of_mem_splitLabels {fuel : Nat} {cs : List Char} (h : name ∈ (splitLabels fuel cs).1) :
    isName name.toList = true := by
  induction fuel generalizing cs with
  | zero => simp [splitLabels] at h
  | succ fuel ih =>
    rw [splitLabels] at h
    dsimp only at h
    split at h
    · simp at h
    · next first after _ =>
      split at h
      · next hname =>
        rcases List.mem_cons.mp h with rfl | h
        · rwa [String.toList_ofList]
        · exact ih h
      · simp at h

theorem isName_of_mem_readLines {text : String} {line : Line} (h : line ∈ readLines text)
    (hname : name ∈ line.labels) : isName name.toList = true := by
  obtain ⟨cs, -, rfl⟩ := List.mem_map.mp h
  have hsplit : name ∈ (splitLabels ((stripComment cs).length + 1) (stripComment cs)).1 := hname
  exact isName_of_mem_splitLabels hsplit

/-! ### The first pass -/

/-- An instruction that is left to the second pass was read from a line at its location counter. -/
def Pending.ReadAt (p : Pending) (e : Nat × Line) : Prop :=
  p.pc.toNat = e.1 ∧
    ∃ mnemonic, e.2.statement = .instruction mnemonic p.operands ∧
      selectOpcode mnemonic p.operands = .ok p.op

/-- The labels of lines with their addresses. -/
def definitions (lines : List (Nat × Line)) : Labels :=
  lines.flatMap fun e => e.2.labels.map fun name => (name, BitVec.ofNat 16 e.1)

namespace Layout

variable {l l' l₁ : Layout} {n : Nat}

theorem of_define (h : l.define name = .ok l') : l.counter < flashSize ∧
    name ∉ l.labels.map Prod.fst ∧ l' = { l with labels := (name, BitVec.ofNat 16 l.counter) :: l.labels } := by
  unfold define at h
  split_ifs at h with hend hdefined
  refine ⟨Nat.lt_of_not_le hend, fun hmem => hdefined ?_, (Except.ok.inj h).symm⟩
  obtain ⟨e, he, rfl⟩ := List.mem_map.mp hmem
  exact List.lookup_isSome_iff.mpr ⟨e, he, beq_self_eq_true _⟩

/-- The labels of one line stand at the location counter and are new. -/
theorem of_foldlM_define {names : List String} (h : names.foldlM define l = .ok l') :
    l' = { l with
      labels := (names.map fun name => (name, BitVec.ofNat 16 l.counter)).reverse ++ l.labels } ∧
      (names ≠ [] → l.counter < flashSize) ∧
      ((l.labels.map Prod.fst).Nodup → (l'.labels.map Prod.fst).Nodup) := by
  induction names generalizing l with
  | nil =>
    obtain rfl : l = l' := Except.ok.inj h
    exact ⟨rfl, fun hne => absurd rfl hne, id⟩
  | cons name names ih =>
    rw [List.foldlM_cons] at h
    obtain ⟨l₁, hdefine, h⟩ := exists_of_bind_ok h
    obtain ⟨hlt, hfresh, rfl⟩ := of_define hdefine
    obtain ⟨hlabels, -, hnodup⟩ := ih h
    refine ⟨?_, fun _ => hlt, fun hl => hnodup (List.nodup_cons.mpr ⟨hfresh, hl⟩)⟩
    rw [hlabels, List.map_cons, List.reverse_cons, List.append_assoc]
    rfl

/-- A statement defines no label, and moves the location counter. -/
theorem of_addStatement {st : Statement} (h : l.addStatement n st = .ok l') :
    l'.labels = l.labels ∧ l'.counter = st.advance l.counter ∧
      (l'.pending = l.pending ∧ st.isInstruction = false ∨
        ∃ p, l'.pending = p :: l.pending ∧ p.pc.toNat = l.counter ∧
          ∃ mnemonic, st = .instruction mnemonic p.operands ∧
            selectOpcode mnemonic p.operands = .ok p.op) := by
  cases st with
  | nothing =>
    cases h
    exact ⟨rfl, rfl, .inl ⟨rfl, rfl⟩⟩
  | directive directive rest =>
    rw [addStatement, origin] at h
    split_ifs at h with horg
    split at h
    · cases h
    · next v hv =>
      split_ifs at h
      cases h
      refine ⟨rfl, ?_, .inl ⟨rfl, rfl⟩⟩
      rw [Statement.advance, if_pos horg, hv]
  | instruction mnemonic operands =>
    rw [addStatement] at h
    split at h
    · cases h
    · next op hop =>
      split_ifs at h with hlong
      cases h
      have hsize := Instruction.size_cases { op }
      refine ⟨rfl, by rw [Statement.advance, hop], .inr ⟨_, rfl, ?_, mnemonic, rfl, hop⟩⟩
      rw [flashSize] at hlong
      rw [Instruction.size] at hsize
      dsimp only at hsize ⊢
      rw [BitVec.toNat_ofNat]
      omega

/-- What the lines with their location counters add to a layout. -/
structure Adds (l l' : Layout) (lines : List (Nat × Line)) : Prop where
  /-- The definitions of the lines are added, the latest first. -/
  labels : l'.labels = (definitions lines).reverse ++ l.labels
  /-- A label stands inside the flash. -/
  inside : ∀ e ∈ lines, e.2.labels ≠ [] → e.1 < flashSize
  /-- No label is defined twice. -/
  fresh : (l.labels.map Prod.fst).Nodup → (l'.labels.map Prod.fst).Nodup
  /-- The instructions that were read before are kept. -/
  kept : l.pending ⊆ l'.pending
  /-- Every line with an instruction is read at its location counter. -/
  read : ∀ e ∈ lines, e.2.statement.isInstruction = true → ∃ p ∈ l'.pending, p.ReadAt e
  /-- No other instruction is read. -/
  number : l'.pending.length = l.pending.length + lines.countP fun e => e.2.statement.isInstruction

theorem Adds.nil (l : Layout) : l.Adds l [] where
  labels := rfl
  inside := by simp
  fresh := id
  kept := List.Subset.refl _
  read := by simp
  number := rfl

theorem Adds.append {es es' : List (Nat × Line)} (h : l.Adds l₁ es) (h' : l₁.Adds l' es') :
    l.Adds l' (es ++ es') where
  labels := by
    rw [h'.labels, h.labels, definitions, definitions, definitions, List.flatMap_append,
      List.reverse_append, List.append_assoc]
  inside e he := by
    rcases List.mem_append.mp he with he | he
    · exact h.inside e he
    · exact h'.inside e he
  fresh hl := h'.fresh (h.fresh hl)
  kept := List.Subset.trans h.kept h'.kept
  read e he hi := by
    rcases List.mem_append.mp he with he | he
    · obtain ⟨p, hp, hread⟩ := h.read e he hi
      exact ⟨p, h'.kept hp, hread⟩
    · exact h'.read e he hi
  number := by rw [h'.number, h.number, List.countP_append, Nat.add_assoc]

/-- A line adds its labels and its instruction at the location counter. -/
theorem adds_of_addLine {line : Line} (h : l.addLine n line = .ok l') :
    l.Adds l' [(l.counter, line)] ∧ l'.counter = line.statement.advance l.counter := by
  obtain ⟨l₁, hlabels, h⟩ := exists_of_bind_ok h
  obtain ⟨rfl, hinside, hfresh⟩ := of_foldlM_define hlabels
  obtain ⟨hsame, hcounter, hpending⟩ := of_addStatement h
  refine ⟨⟨?_, by simpa using hinside, by rwa [hsame], ?_, ?_, ?_⟩, hcounter⟩
  · rw [hsame, definitions, List.flatMap_singleton]
  · rcases hpending with ⟨hpending, -⟩ | ⟨p, hpending, -⟩
    · rw [hpending]
      exact List.Subset.refl _
    · rw [hpending]
      exact List.subset_cons_self _ _
  · rw [List.forall_mem_singleton]
    intro hi
    rcases hpending with ⟨-, hno⟩ | ⟨p, hpending, hread⟩
    · exact absurd hi (by simp [hno])
    · exact ⟨p, by rw [hpending]; exact List.mem_cons_self, hread⟩
  · rcases hpending with ⟨hpending, hno⟩ | ⟨p, hpending, -, mnemonic, hst, -⟩
    · simp [hpending, hno]
    · simp [hpending, hst, Statement.isInstruction]

/-- The first pass adds the lines of a text at their location counters. -/
theorem adds_of_addLines {lines : List Line} (h : l.addLines n lines = .ok l') :
    l.Adds l' (locate l.counter lines) := by
  induction lines generalizing l n with
  | nil =>
    obtain rfl : l = l' := Except.ok.inj h
    exact .nil l
  | cons line rest ih =>
    rw [addLines] at h
    split at h
    · cases h
    · next l₁ hline =>
      obtain ⟨hadds, hcounter⟩ := adds_of_addLine hline
      have hrest := ih h
      rw [hcounter] at hrest
      exact hadds.append hrest

end Layout

/-! ### The second pass -/

/-- The second pass puts every instruction where it was left, and keeps what it put before. -/
theorem placed_of_foldlM {ps : List Pending} {f g : Flash}
    (h : ps.foldlM (placePending labels) f = .ok g) :
    (∀ w i, f.at? w = some i → g.at? w = some i) ∧ g.count = f.count + ps.length ∧
      ∀ p ∈ ps, ∃ i, encode labels p.pc p.op p.operands = .ok i ∧ p.pc.toNat % 2 = 0 ∧
        g.at? (p.pc.toNat / 2) = some i := by
  induction ps generalizing f with
  | nil =>
    obtain rfl : f = g := Except.ok.inj h
    exact ⟨fun _ _ hat => hat, rfl, by simp⟩
  | cons p ps ih =>
    rw [List.foldlM_cons] at h
    obtain ⟨f₁, hplace, h⟩ := exists_of_bind_ok h
    obtain ⟨i, hencode, hplace⟩ := placePending_eq_ok_iff.mp hplace
    obtain ⟨heven, -, hfree, rfl⟩ := Flash.place_eq_ok_iff.mp hplace
    obtain ⟨hnone, -, -⟩ := Flash.isTaken_eq_false_iff.mp hfree
    obtain ⟨hkept, hcount, hplaced⟩ := ih h
    refine ⟨fun w j hj => hkept w j ?_, ?_, List.forall_mem_cons.mpr ⟨⟨i, hencode, heven, ?_⟩, hplaced⟩⟩
    · rw [Flash.at?_stored, if_neg, hj]
      rintro rfl
      rw [hnone] at hj
      exact absurd hj (by simp)
    · rw [hcount, Flash.count_stored hnone, List.length_cons]
      omega
    · exact hkept _ i (by rw [Flash.at?_stored, if_pos rfl])

/-! ### Targets -/

variable {s : String} {k limit : Int}

/-- An even address inside the flash. -/
def IsWordAddress (t : Int) : Prop := 0 ≤ t ∧ t < flashSize ∧ t % 2 = 0

instance (t : Int) : Decidable (IsWordAddress t) :=
  inferInstanceAs (Decidable (0 ≤ t ∧ t < flashSize ∧ t % 2 = 0))

theorem constant_trim (labels : Labels) (s : String) : constant labels (Text.trim s) = constant labels s := by
  have hparse : Numeral.parse (Text.trim s) = Numeral.parse s := by
    rw [Numeral.parse, Numeral.parse, Numeral.parseList, Numeral.parseList, Text.trim, String.toList_ofList,
      (Text.hasSolidEnds_trimList s.toList).trimList]
  rw [constant, constant, Text.trim_trim, hparse]

/-- A target that is no distance is accepted if it is even and not too far away, wherever it lies. -/
theorem relativeWords_eq_ok_iff (hpc : pc.toNat % 2 = 0) (hs : distance? (Text.trim s).toList = none) :
    relativeWords labels s pc limit = .ok k ↔
      constant labels s = .ok (pc.toNat + 2 + 2 * k) ∧ -limit ≤ k ∧ k < limit := by
  rw [relativeWords, hs, constant_trim]
  constructor
  · intro h
    obtain ⟨t, ht, h⟩ := exists_of_bind_ok h
    split_ifs at h with heven
    · obtain ⟨k', hk', h⟩ := exists_of_bind_ok h
      obtain rfl := Except.ok.inj hk'
      dsimp only at h
      split_ifs at h with hrange
      obtain rfl := Except.ok.inj h
      exact ⟨ht.trans (congrArg Except.ok (by omega)), hrange⟩
    · obtain ⟨k', hk', -⟩ := exists_of_bind_ok h
      cases hk'
  · rintro ⟨ht, hrange⟩
    have heven : ((pc.toNat : Int) + 2 + 2 * k) % 2 = 0 := by omega
    have hk : ((pc.toNat : Int) + 2 + 2 * k - pc.toNat - 2) / 2 = k := by omega
    simp only [ht, bind, Except.bind, if_pos heven, hk, if_pos hrange]

/-- The target of an absolute transfer is accepted if it is an address of an instruction. -/
theorem absoluteWord_eq_ok_iff :
    absoluteWord labels s = .ok k ↔ constant labels s = .ok (2 * k) ∧ IsWordAddress (2 * k) := by
  rw [absoluteWord, constantIn]
  constructor
  · intro h
    obtain ⟨t, ht, h⟩ := exists_of_bind_ok h
    obtain ⟨t', ht', ht⟩ := exists_of_bind_ok ht
    split_ifs at ht with hrange
    obtain rfl := Except.ok.inj ht
    split_ifs at h with heven
    obtain rfl := Except.ok.inj h
    have htwice : 2 * (t' / 2) = t' := by omega
    rw [htwice]
    exact ⟨ht', hrange.1, by rw [flashSize]; omega, heven⟩
  · rintro ⟨ht, hlow, hhigh, heven⟩
    rw [flashSize] at hhigh
    have hrange : 0 ≤ 2 * k ∧ 2 * k ≤ 0xFFFF := by omega
    have hk : 2 * k / 2 = k := by omega
    simp only [ht, bind, Except.bind, if_pos hrange, if_pos heven, hk]

/-- The value of a label is an address of the flash. -/
theorem constant_of_lookup {a : Address} (h : labels.lookup (Text.trim s) = some a) :
    constant labels s = .ok (a.toNat : Int) := by
  rw [constant, h]

theorem trim_of_isName (h : isName name.toList = true) : Text.trim name = name := by
  rw [Text.trim, (isWord_of_isName h).hasSolidEnds.trimList, String.ofList_toList]

/-- A label is read as its address. -/
theorem constant_of_label (h : labels.lookup name = some a) (hname : isName name.toList = true) :
    constant labels name = .ok (a.toNat : Int) :=
  constant_of_lookup (by rwa [trim_of_isName hname])

/-- The distance to a label leads to its address. -/
theorem relativeTarget_of_label (h : labels.lookup name = some a) (hname : isName name.toList = true)
    (hpc : pc.toNat % 2 = 0) (hk : relativeWords labels name pc limit = .ok k) : relativeTarget pc k = a := by
  have hs : distance? (Text.trim name).toList = none := by
    rw [trim_of_isName hname, distance?_of_isName hname]
  obtain ⟨hvalue, -⟩ := (relativeWords_eq_ok_iff hpc hs).mp hk
  have htarget := Except.ok.inj (hvalue.symm.trans (constant_of_label h hname))
  rw [relativeTarget, htarget, BitVec.ofInt_natCast, BitVec.ofNat_toNat, BitVec.setWidth_eq]

/-- The word address of a label is its address. -/
theorem absoluteTarget_of_label (h : labels.lookup name = some a) (hname : isName name.toList = true)
    (hk : absoluteWord labels name = .ok k) : absoluteTarget k = a := by
  obtain ⟨hvalue, -⟩ := absoluteWord_eq_ok_iff.mp hk
  have htarget := Except.ok.inj (hvalue.symm.trans (constant_of_label h hname))
  rw [absoluteTarget, htarget, BitVec.ofInt_natCast, BitVec.ofNat_toNat, BitVec.setWidth_eq]

/-- The last operand of a relative transfer is its target. -/
theorem relativeWords_of_encode {op : Opcode} {operands : List String} {i : Instruction}
    (h : encode labels pc op operands = .ok i) (hform : op.form ∈ [.relative, .flagRelative])
    (hlast : operands.getLast? = some name) : ∃ limit, relativeWords labels name pc limit = .ok i.k := by
  rcases List.mem_pair.mp hform with hform | hform
  · match operands with
    | [target] =>
      obtain rfl := Option.some.inj hlast
      simp only [encode, hform] at h
      obtain ⟨k, hk, h⟩ := exists_of_bind_ok h
      cases h
      exact ⟨_, hk⟩
    | [] | _ :: _ :: _ => simp [encode, hform] at h
  · match operands with
    | [bit, target] =>
      obtain rfl := Option.some.inj hlast
      simp only [encode, hform] at h
      obtain ⟨bit, -, h⟩ := exists_of_bind_ok h
      obtain ⟨k, hk, h⟩ := exists_of_bind_ok h
      cases h
      exact ⟨_, hk⟩
    | [] | [_] | _ :: _ :: _ :: _ => simp [encode, hform] at h

/-- The operand of an absolute transfer is its target. -/
theorem absoluteWord_of_encode {op : Opcode} {operands : List String} {i : Instruction}
    (h : encode labels pc op operands = .ok i) (hform : op.form = .absolute)
    (hlast : operands.getLast? = some name) : absoluteWord labels name = .ok i.k := by
  match operands with
  | [target] =>
    obtain rfl := Option.some.inj hlast
    simp only [encode, hform] at h
    obtain ⟨k, hk, h⟩ := exists_of_bind_ok h
    cases h
    exact hk
  | [] | _ :: _ :: _ => simp [encode, hform] at h

/-! ### The labels -/

/-- Where no name occurs twice, every entry is found by its name. -/
theorem lookup_eq_some_of_nodup (h : (labels.map Prod.fst).Nodup) :
    labels.lookup name = some a ↔ (name, a) ∈ labels := by
  rw [List.lookup_eq_some_iff]
  constructor
  · rintro ⟨before, after, rfl, -⟩
    simp
  · intro hmem
    obtain ⟨before, after, rfl⟩ := List.append_of_mem hmem
    refine ⟨before, after, rfl, fun e he => bne_iff_ne.mpr fun heq => ?_⟩
    rw [List.map_append, List.nodup_append] at h
    exact h.2.2 e.1 (List.mem_map_of_mem he) name (by simp) heq.symm

theorem mem_definitions {lines : List (Nat × Line)} : (name, a) ∈ definitions lines ↔
    ∃ e ∈ lines, name ∈ e.2.labels ∧ a = BitVec.ofNat 16 e.1 := by
  simp only [definitions, List.mem_flatMap, List.mem_map, Prod.mk.injEq]
  constructor
  · rintro ⟨e, he, _, hname, rfl, rfl⟩
    exact ⟨e, he, hname, rfl⟩
  · rintro ⟨e, he, hname, rfl⟩
    exact ⟨e, he, name, hname, rfl, rfl⟩

namespace Layout.Adds

variable {l : Layout} {lines : List (Nat × Line)}

/-- The counter of a line with labels is an address. -/
theorem toNat_counter (h : ({} : Layout).Adds l lines) {e : Nat × Line} (he : e ∈ lines)
    (hname : name ∈ e.2.labels) : (BitVec.ofNat 16 e.1).toNat = e.1 := by
  have hlt := h.inside e he (List.ne_nil_of_mem hname)
  rw [flashSize] at hlt
  rw [BitVec.toNat_ofNat]
  omega

/-- A label is found at the counter of the line that defines it, and no other label is. -/
theorem lookup_eq_some_iff (h : ({} : Layout).Adds l lines) :
    l.labels.lookup name = some a ↔ ∃ line, (a.toNat, line) ∈ lines ∧ name ∈ line.labels := by
  rw [lookup_eq_some_of_nodup (h.fresh List.nodup_nil), h.labels, List.append_nil, List.mem_reverse,
    mem_definitions]
  constructor
  · rintro ⟨⟨c, line⟩, he, hname, rfl⟩
    exact ⟨line, by rwa [h.toNat_counter he hname], hname⟩
  · rintro ⟨line, he, hname⟩
    exact ⟨_, he, hname, by rw [BitVec.ofNat_toNat, BitVec.setWidth_eq]⟩

theorem nodup_names (h : ({} : Layout).Adds l lines) : (lines.flatMap fun e => e.2.labels).Nodup := by
  have hnodup := h.fresh List.nodup_nil
  have hnames : (definitions lines).map Prod.fst = lines.flatMap fun e => e.2.labels := by
    simp [definitions, List.map_flatMap, Function.comp_def]
  rw [h.labels, List.append_nil, List.map_reverse, hnames] at hnodup
  exact List.nodup_reverse.mp hnodup

end Layout.Adds

/-! ### Both passes -/

variable {text : String} {p : Program}

theorem mem_of_mem_locate {c : Nat} {lines : List Line} {e : Nat × Line} (h : e ∈ locate c lines) :
    e.2 ∈ lines := by
  induction lines generalizing c with
  | nil => cases h
  | cons line rest ih =>
    rw [locate] at h
    rcases List.mem_cons.mp h with rfl | h
    · exact List.mem_cons_self
    · exact List.mem_cons_of_mem _ (ih h)

/-- What the two passes leave. -/
theorem passes_of_assemble (h : assemble text = .ok p) : ∃ l : Layout,
    ({} : Layout).Adds l (locate 0 (readLines text)) ∧ p.labels = l.labels ∧
      p.flash.count = l.pending.length ∧
      ∀ q ∈ l.pending, ∃ i, encode p.labels q.pc q.op q.operands = .ok i ∧ q.pc.toNat % 2 = 0 ∧
        p.flash.fetch q.pc = .ok i := by
  have htidy := tidy_assemble h
  obtain ⟨layout, hlayout, h⟩ := exists_of_bind_ok h
  obtain ⟨flash, hflash, h⟩ := exists_of_bind_ok h
  cases h
  obtain ⟨-, hcount, hplaced⟩ := placed_of_foldlM hflash
  refine ⟨layout, Layout.adds_of_addLines hlayout, rfl, ?_, fun q hq => ?_⟩
  · rw [hcount, List.length_reverse]
    exact Nat.zero_add _
  · obtain ⟨i, hencode, heven, hat⟩ := hplaced q (List.mem_reverse.mpr hq)
    exact ⟨i, hencode, heven, htidy.fetch_eq_ok_iff.mpr ⟨heven, hat⟩⟩

/-- The instruction of a line is found at its counter. -/
theorem exists_fetch_of_assemble (h : assemble text = .ok p) {c : Nat} {line : Line} {mnemonic : String}
    {operands : List String} (hmem : (c, line) ∈ locate 0 (readLines text))
    (hst : line.statement = .instruction mnemonic operands) :
    ∃ pc op i, BitVec.ofNat 16 c = pc ∧ pc.toNat = c ∧ pc.toNat % 2 = 0 ∧
      selectOpcode mnemonic operands = .ok op ∧ encode p.labels pc op operands = .ok i ∧
        p.flash.fetch pc = .ok i := by
  obtain ⟨l, hadds, -, -, hplaced⟩ := passes_of_assemble h
  obtain ⟨q, hq, rfl, mnemonic', hst', hop⟩ := hadds.read _ hmem (by rw [hst]; rfl)
  obtain ⟨rfl, rfl⟩ := Statement.instruction.inj (hst.symm.trans hst')
  obtain ⟨i, hencode, heven, hfetch⟩ := hplaced q hq
  exact ⟨q.pc, q.op, i, by rw [BitVec.ofNat_toNat, BitVec.setWidth_eq], rfl, heven, hop, hencode, hfetch⟩

/-- A transfer to a label goes where the label stands. -/
theorem target_of_assemble (h : assemble text = .ok p) {op : Opcode} {operands : List String}
    {i : Instruction} (heven : pc.toNat % 2 = 0) (hencode : encode p.labels pc op operands = .ok i)
    (hlast : operands.getLast? = some name) (hlabel : p.label? name = some a) :
    (i.op.form ∈ [.relative, .flagRelative] → relativeTarget pc i.k = a) ∧
      (i.op.form = .absolute → absoluteTarget i.k = a) := by
  obtain ⟨l, hadds, hlabels, -, -⟩ := passes_of_assemble h
  rw [Program.label?, hlabels] at hlabel
  obtain ⟨line, hmem, hdefined⟩ := hadds.lookup_eq_some_iff.mp hlabel
  rw [← hlabels] at hlabel
  have hname := isName_of_mem_readLines (mem_of_mem_locate hmem) hdefined
  rw [(encodable_encode hencode).1]
  refine ⟨fun hform => ?_, fun hform => ?_⟩
  · obtain ⟨limit, hk⟩ := relativeWords_of_encode hencode hform hlast
    exact relativeTarget_of_label hlabel hname heven hk
  · exact absoluteTarget_of_label hlabel hname (absoluteWord_of_encode hencode hform hlast)

/-- Both passes of the assembler agree: every instruction and every label of an assembled program stand at
the location counter of their line, and transfers to a label go there. -/
theorem laidOut_assemble (h : assemble text = .ok p) : LaidOut p (locate 0 (readLines text)) := by
  have htidy := tidy_assemble h
  obtain ⟨l, hadds, hlabels, hcount, -⟩ := passes_of_assemble h
  constructor
  case found =>
    intro c line mnemonic operands hmem hst
    obtain ⟨pc, op, i, rfl, hpc, -, hop, hencode, hfetch⟩ := exists_fetch_of_assemble h hmem hst
    exact ⟨op, i, hop, hencode, hpc ▸ BitVec.isLt _, hfetch⟩
  case listed => exact fun pc i => htidy.mem_toList_iff
  case count_eq =>
    rw [hcount, hadds.number]
    exact Nat.zero_add _
  case apart => exact htidy.pairwise_toList
  case inside =>
    intro pc i hmem
    obtain ⟨w, hat, rfl⟩ := Flash.mem_toList.mp hmem
    rw [htidy.toNat_address hat]
    exact htidy.address_lt hat
  case finish => exact htidy.isGreatest_finish
  case label =>
    intro c line name hmem hname
    have hcounter := hadds.toNat_counter hmem hname
    refine ⟨BitVec.ofNat 16 c, ?_, hcounter⟩
    rw [Program.label?, hlabels, hadds.lookup_eq_some_iff]
    exact ⟨line, hcounter.symm ▸ hmem, hname⟩
  case defined =>
    intro name a hlabel
    rw [Program.label?, hlabels] at hlabel
    exact hadds.lookup_eq_some_iff.mp hlabel
  case once => exact hadds.nodup_names
  case transfer =>
    intro c line mnemonic operands i name a hmem hst hi hlast hlabel
    obtain ⟨pc, op, j, rfl, -, heven, -, hencode, hfetch⟩ := exists_fetch_of_assemble h hmem hst
    obtain rfl := Except.ok.inj (hfetch.symm.trans hi)
    exact target_of_assemble h heven hencode hlast hlabel

/-- Two jumps to each other. The second one is laid out in front of the first one. -/
def crossedJumps : Program where
  flash :=
    { slots := #[none, some { op := .RJMP, k := 2 }, none, none, some { op := .JMP, k := 1 }, none]
      finish := 12 }
  labels := [("ahead", 2#16), ("back", 8#16)]

theorem laidOut_assemble_of_crossed_jumps :
    assemble ".org 8\nback: jmp ahead\n.org 2\nahead: rjmp back" = .ok crossedJumps ∧
      LaidOut crossedJumps [(0, ⟨[], .directive ".org" "8"⟩), (8, ⟨["back"], .instruction "jmp" ["ahead"]⟩),
        (12, ⟨[], .directive ".org" "2"⟩), (2, ⟨["ahead"], .instruction "rjmp" ["back"]⟩)] := by
  have hasm : assemble ".org 8\nback: jmp ahead\n.org 2\nahead: rjmp back" = .ok crossedJumps := by
    decide +kernel
  have hlines : locate 0 (readLines ".org 8\nback: jmp ahead\n.org 2\nahead: rjmp back") =
      [(0, ⟨[], .directive ".org" "8"⟩), (8, ⟨["back"], .instruction "jmp" ["ahead"]⟩),
        (12, ⟨[], .directive ".org" "2"⟩), (2, ⟨["ahead"], .instruction "rjmp" ["back"]⟩)] := by
    decide +kernel
  exact ⟨hasm, hlines ▸ laidOut_assemble hasm⟩

end Assembly

end StackDepth
