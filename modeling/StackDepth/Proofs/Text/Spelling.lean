import Mathlib
import StackDepth.Proofs.Text.Numeral

/-!
# Spellings of a number

A number can be spelled in five ways, with leading zeros and in either case of letters, and all of them are
read as the number, with any sign in front and white space around. There is one exception. The notations are
told apart by the first characters before the last one is looked at, so a spelling that ends in `h` and begins
with `0b` is taken for one in base two. The `h` is no digit there, and the text is refused.

* `Numeral.Spells`: the spellings of a number;
* `Numeral.Digits.digitsFrom?_eq`: the digits of a spelling stand for the number;
* `Numeral.parse_of_spells`: what the spellings are read as.
-/

namespace StackDepth

namespace Numeral

/-! ### Spellings -/

/-- The ways to spell a number. -/
inductive Style where
  /-- Base ten. -/
  | decimal
  /-- Base sixteen behind `0x`. -/
  | prefixed
  /-- Base sixteen behind a dollar sign. -/
  | dollar
  /-- Base sixteen in front of `h`. -/
  | suffixed
  /-- Base two behind `0b`. -/
  | binary
deriving DecidableEq

/-- The base of the digits. -/
def Style.base : Style → Nat
  | .decimal => 10
  | .prefixed | .dollar | .suffixed => 16
  | .binary => 2

/-- The digits of a number behind any number of zeros, in either case of letters. -/
def Digits (base n : Nat) (ds : List Char) : Prop :=
  ∃ zeros, ds.map Char.toLower = List.replicate zeros '0' ++ Nat.toDigits base n

/-- The spellings of a number. -/
inductive Spells : Style → Nat → List Char → Prop
  | decimal {n : Nat} {ds : List Char} (h : Digits 10 n ds) : Spells .decimal n ds
  | prefixed {n : Nat} {ds : List Char} {c : Char} (h : Digits 16 n ds) (hc : c.toLower = 'x') :
      Spells .prefixed n ('0' :: c :: ds)
  | dollar {n : Nat} {ds : List Char} (h : Digits 16 n ds) : Spells .dollar n ('$' :: ds)
  | suffixed {n : Nat} {ds : List Char} {c : Char} (h : Digits 16 n ds) (hc : c.toLower = 'h') :
      Spells .suffixed n (ds ++ [c])
  | binary {n : Nat} {ds : List Char} {c : Char} (h : Digits 2 n ds) (hc : c.toLower = 'b') :
      Spells .binary n ('0' :: c :: ds)

/-- The lower-case characters of spellings. -/
def spellingChars : List Char :=
  ['0', '1', '2', '3', '4', '5', '6', '7', '8', '9', 'a', 'b', 'c', 'd', 'e', 'f', 'x', '$', 'h']

variable {base n : Nat} {style : Style} {c : Char} {cs ds body : List Char}

/-! ### Characters -/

theorem toNat_lt_of_toLower (h : c.toLower.toNat < 0x80) : c.toNat < 0x80 := by
  unfold Char.toLower at h
  split at h
  · next hupper =>
    have hlast : 'Z'.val.toNat = 90 := rfl
    have hcode : c.val.toNat = c.toNat := rfl
    simp only [ge_iff_le, UInt32.le_iff_toNat_le] at hupper
    omega
  · exact h

/-- The characters of spellings are plain and no signs, and they have no case beyond ASCII. -/
theorem of_mem_spellingChars (h : c.toLower ∈ spellingChars) :
    Text.isPlain c = true ∧ c ≠ '-' ∧ c ≠ '+' ∧ Text.lower c = c.toLower := by
  have hascii : ∀ d ∈ spellingChars, d.toNat < 0x80 := by simp [spellingChars]
  have hall : ∀ k ∈ List.range 0x80, (Char.ofNat k).toLower ∈ spellingChars →
      Text.isPlain (Char.ofNat k) = true ∧ Char.ofNat k ≠ '-' ∧ Char.ofNat k ≠ '+' := by
    decide +kernel
  have hlt := toNat_lt_of_toLower (hascii _ h)
  have hc := hall c.toNat (List.mem_range.mpr hlt)
  rw [Char.ofNat_toNat] at hc
  obtain ⟨hplain, hminus, hplus⟩ := hc h
  exact ⟨hplain, hminus, hplus, by rw [Text.lower, if_pos hlt]⟩

/-! ### Digits -/

namespace Digits

theorem mem (h : Digits base n ds) (hbase : 1 < base) (hc : c ∈ ds) :
    ∃ d < base, c.toLower = Nat.digitChar d := by
  obtain ⟨zeros, h⟩ := h
  have hmem : c.toLower ∈ ds.map Char.toLower := List.mem_map_of_mem hc
  rw [h, List.mem_append] at hmem
  rcases hmem with hmem | hmem
  · exact ⟨0, by omega, List.eq_of_mem_replicate hmem⟩
  · exact mem_toDigits hbase hmem

theorem mem_spellingChars (h : Digits base n ds) (hbase : 1 < base) (hbase' : base ≤ 16) (hc : c ∈ ds) :
    c.toLower ∈ spellingChars := by
  obtain ⟨d, hd, hc⟩ := h.mem hbase hc
  have hall : ∀ d < 16, Nat.digitChar d ∈ spellingChars := by decide
  rw [hc]
  exact hall d (by omega)

theorem ne_nil (h : Digits base n ds) : ds ≠ [] := by
  rintro rfl
  obtain ⟨zeros, h⟩ := h
  exact Nat.toDigits_ne_nil (List.append_eq_nil_iff.mp h.symm).2

/-- The digits of a spelling stand for the number. -/
theorem digitsFrom?_eq (h : Digits base n ds) (hbase : 1 < base) (hbase' : base ≤ 16) :
    digitsFrom? base 0 (ds.map Char.toLower) = some n := by
  obtain ⟨zeros, h⟩ := h
  rw [h, digitsFrom?_zeros (by omega), digitsFrom?_toDigits_self hbase hbase']

theorem signed?_eq (h : Digits base n ds) (hbase : 1 < base) (hbase' : base ≤ 16) (hn : n < 0x80000000) :
    signed? base 32 (ds.map Char.toLower) = some (n : Int) := by
  refine signed?_of_digits (by simpa using h.ne_nil) (fun c hc => ?_) (h.digitsFrom?_eq hbase hbase') hn
  obtain ⟨d, hd, rfl⟩ := List.mem_map.mp (List.mem_of_head? hc)
  obtain ⟨v, hv, hd⟩ := h.mem hbase hd
  have hsigns : ∀ v < 16, Nat.digitChar v ≠ '-' ∧ Nat.digitChar v ≠ '+' := by decide
  rw [hd]
  exact hsigns v (by omega)

end Digits

/-! ### Notations -/

namespace Spells

theorem mem (h : Spells style n body) : ∀ d ∈ body, d.toLower ∈ spellingChars := by
  have hmarks : ∀ m ∈ ['0', 'x', '$', 'h', 'b'], m ∈ spellingChars := by simp [spellingChars]
  have hsixteen : ∀ {ds}, Digits 16 n ds → ∀ d ∈ ds, d.toLower ∈ spellingChars :=
    fun h _ => h.mem_spellingChars (by decide) (by decide)
  have hzero := hmarks '0' (by simp)
  cases h with
  | decimal h => exact fun _ => h.mem_spellingChars (by decide) (by decide)
  | prefixed h hc =>
    exact List.forall_mem_cons.mpr
      ⟨hzero, List.forall_mem_cons.mpr ⟨hc ▸ hmarks 'x' (by simp), hsixteen h⟩⟩
  | dollar h => exact List.forall_mem_cons.mpr ⟨hmarks '$' (by simp), hsixteen h⟩
  | suffixed h hc =>
    exact List.forall_mem_append.mpr
      ⟨hsixteen h, List.forall_mem_singleton.mpr (hc ▸ hmarks 'h' (by simp))⟩
  | binary h hc =>
    refine List.forall_mem_cons.mpr
      ⟨hzero, List.forall_mem_cons.mpr ⟨hc ▸ hmarks 'b' (by simp), fun _ => ?_⟩⟩
    exact h.mem_spellingChars (by decide) (by decide)

theorem ne_nil (h : Spells style n body) : body ≠ [] := by
  cases h with
  | decimal h => exact h.ne_nil
  | prefixed | dollar | suffixed | binary => simp

theorem isWord (h : Spells style n body) : Text.IsWord body :=
  ⟨h.ne_nil, fun _ hc => (of_mem_spellingChars (h.mem _ hc)).1⟩

theorem map_lower (h : Spells style n body) : body.map Text.lower = body.map Char.toLower :=
  List.map_congr_left fun _ hc => (of_mem_spellingChars (h.mem _ hc)).2.2.2

end Spells

/-- The text begins as one in base two does. -/
def BeginsBinary (body : List Char) : Prop := ['0', 'b'] <+: body.map Char.toLower

instance (body : List Char) : Decidable (BeginsBinary body) :=
  inferInstanceAs (Decidable (['0', 'b'] <+: body.map Char.toLower))

theorem Digits.not_mem_map (h : Digits 16 n ds) : ∀ m ∈ ['x', '$', 'h'], m ∉ ds.map Char.toLower := by
  intro m hm hmem
  obtain ⟨d, hd, rfl⟩ := List.mem_map.mp hmem
  obtain ⟨v, hv, hd⟩ := h.mem (by decide) hd
  have hall : ∀ v < 16, Nat.digitChar v ∉ ['x', '$', 'h'] := by decide
  exact hall v hv (hd ▸ hm)

theorem baseAndDigits_suffixed (h : ∀ m ∈ ['x', '$', 'h'], m ∉ cs) (hne : cs ≠ [])
    (hbinary : ¬ ['0', 'b'] <+: cs ++ ['h']) : baseAndDigits (cs ++ ['h']) = (16, cs) := by
  have hmark : ∀ m ∈ ['x', '$'], m ∉ cs ++ ['h'] := by
    intro m hm hmem
    rcases List.mem_append.mp hmem with hmem | hmem
    · exact h m (List.mem_append_left ['h'] hm) hmem
    · rw [List.mem_singleton.mp hmem] at hm
      exact absurd hm (by decide)
  generalize hlower : cs ++ ['h'] = lower at hmark hbinary
  unfold baseAndDigits
  split
  · exact absurd (by simp) (hmark 'x' (by simp))
  · exact absurd (List.prefix_append _ _) hbinary
  · exact absurd (by simp) (hmark '$' (by simp))
  · subst hlower
    have hlength : 1 < (cs ++ ['h']).length := by
      have hpos := List.length_pos_of_ne_nil hne
      rw [List.length_append, List.length_singleton]
      omega
    rw [if_pos ⟨hlength, List.getLast?_concat⟩, List.dropLast_concat]

/-- A spelling is read in its base. -/
theorem Spells.baseAndDigits_eq (h : Spells style n body)
    (hbinary : ¬ (style = .suffixed ∧ BeginsBinary body)) : ∃ ds, Digits style.base n ds ∧
      baseAndDigits (body.map Char.toLower) = (style.base, ds.map Char.toLower) := by
  cases h with
  | decimal h =>
    refine ⟨_, h, baseAndDigits_of_not_mem fun c hc => ?_⟩
    obtain ⟨d, hd, rfl⟩ := List.mem_map.mp hc
    obtain ⟨v, hv, hd⟩ := h.mem (by decide) hd
    have hall : ∀ v < 10, Nat.digitChar v ∉ ['x', 'b', '$', 'h'] := by decide
    exact hd ▸ hall v hv
  | prefixed h hc => exact ⟨_, h, by rw [List.map_cons, List.map_cons, hc]; rfl⟩
  | dollar h => exact ⟨_, h, rfl⟩
  | @suffixed _ ds c h hc =>
    have hlower : (ds ++ [c]).map Char.toLower = ds.map Char.toLower ++ ['h'] := by
      rw [List.map_append, List.map_singleton, hc]
    refine ⟨ds, h, ?_⟩
    rw [hlower]
    refine baseAndDigits_suffixed h.not_mem_map (by simpa using h.ne_nil) fun hprefix => ?_
    exact hbinary ⟨rfl, by rwa [BeginsBinary, hlower]⟩
  | binary h hc => exact ⟨_, h, by rw [List.map_cons, List.map_cons, hc]; rfl⟩

/-! ### Spellings that are refused -/

theorem digitsFrom?_eq_none (hc : c ∈ cs) (hdigit : digitIn? base c = none) (acc : Nat) :
    digitsFrom? base acc cs = none := by
  induction cs generalizing acc with
  | nil => cases hc
  | cons d cs ih =>
    rw [digitsFrom?]
    rcases List.mem_cons.mp hc with rfl | hc
    · rw [hdigit]
    · split
      · exact ih hc _
      · rfl

/-- A text with a character that is no digit and no sign is no number. -/
theorem signed?_eq_none {width : Nat} (hc : c ∈ cs) (hdigit : digitIn? base c = none) (hminus : c ≠ '-')
    (hplus : c ≠ '+') : signed? base width cs = none := by
  have hmem : c ∈ (splitSign cs).2 := by
    unfold splitSign
    split
    · exact List.mem_of_ne_of_mem hminus hc
    · exact List.mem_of_ne_of_mem hplus hc
    · exact hc
  have hmagnitude : magnitude? base (splitSign cs).2 = none := by
    generalize (splitSign cs).2 = digits at hmem
    cases digits with
    | nil => cases hmem
    | cons d digits => exact digitsFrom?_eq_none hmem hdigit 0
  unfold signed?
  dsimp only
  rw [hmagnitude]
  rfl

theorem Spells.signed?_of_beginsBinary (h : Spells .suffixed n body) (hbinary : BeginsBinary body) :
    ∃ digits, baseAndDigits (body.map Char.toLower) = (2, digits) ∧ signed? 2 32 digits = none := by
  obtain ⟨digits, hdigits⟩ := hbinary
  refine ⟨digits, by rw [← hdigits]; rfl, signed?_eq_none (c := 'h') ?_ rfl (by decide) (by decide)⟩
  cases h with
  | suffixed h hc =>
    have hmem : 'h' ∈ ['0', 'b'] ++ digits := by
      rw [hdigits, List.map_append, List.map_singleton, hc]
      exact List.mem_concat_self
    simpa using hmem

/-! ### Reading -/

/-- The signs that may stand in front of a number. -/
def signs : List (List Char) := [[], ['+'], ['-']]

theorem Spells.splitSign_eq (h : Spells style n body) {sign : List Char} (hsign : sign ∈ signs) :
    splitSign (sign ++ body) = (decide (sign = ['-']), body) := by
  have hhead : ∀ c ∈ body.head?, c ≠ '-' ∧ c ≠ '+' := fun c hc =>
    have hchar := of_mem_spellingChars (h.mem _ (List.mem_of_head? hc))
    ⟨hchar.2.1, hchar.2.2.1⟩
  simp only [signs, List.mem_cons, List.not_mem_nil, or_false] at hsign
  rcases hsign with rfl | rfl | rfl
  · exact splitSign_of_ne hhead
  · rfl
  · rfl

theorem Spells.isWord_append (h : Spells style n body) {sign : List Char} (hsign : sign ∈ signs) :
    Text.IsWord (sign ++ body) := by
  have hmarks : Text.isPlain '+' = true ∧ Text.isPlain '-' = true := by decide
  have hplain : ∀ sign ∈ signs, ∀ c ∈ sign, Text.isPlain c = true := by simpa [signs] using hmarks
  refine ⟨List.append_ne_nil_of_right_ne_nil _ h.ne_nil, fun c hc => ?_⟩
  rcases List.mem_append.mp hc with hc | hc
  · exact hplain sign hsign c hc
  · exact h.isWord.2 c hc

/-- What the spellings of a number are read as, with any sign in front and white space around: the number with
its sign, unless the spelling ends in `h` and begins with `0b`. -/
theorem parse_of_spells (h : Spells style n body) (hn : n < 0x80000000) {sign before after : List Char}
    (hsign : sign ∈ signs) (hbefore : ∀ c ∈ before, Text.isBlank c = true)
    (hafter : ∀ c ∈ after, Text.isBlank c = true) :
    parse (String.ofList (before ++ (sign ++ body) ++ after)) =
      if style = .suffixed ∧ BeginsBinary body then .error (.bad (String.ofList body))
      else .ok (applySign (sign = ['-']) n) := by
  have hword := h.isWord_append hsign
  have hsplit := h.splitSign_eq hsign
  rw [← hword.hasSolidEnds.trimList_append hword.1 hbefore hafter] at hsplit
  rw [parse, String.toList_ofList]
  split_ifs with hbinary
  · obtain ⟨rfl, hbinary⟩ := hbinary
    obtain ⟨digits, hbase, hsigned⟩ := h.signed?_of_beginsBinary hbinary
    exact parseList_of_refused hsplit h.ne_nil (h.map_lower ▸ hbase) hsigned
  · obtain ⟨ds, hds, hbase⟩ := h.baseAndDigits_eq hbinary
    have hrange : 1 < style.base ∧ style.base ≤ 16 := by cases style <;> decide
    exact parseList_of_body hsplit h.ne_nil (h.map_lower ▸ hbase) (hds.signed?_eq hrange.1 hrange.2 hn)

theorem parse_of_spells_prefixed : parse " -0x01F\t" = .ok (-31) := by
  have hspells : Spells .prefixed 31 ['0', 'x', '0', '1', 'F'] := .prefixed ⟨1, by decide⟩ (by decide)
  have hread : parse (String.ofList ([' '] ++ (['-'] ++ ['0', 'x', '0', '1', 'F']) ++ ['\t'])) = _ :=
    parse_of_spells hspells (by decide) (by decide) (List.forall_mem_singleton.mpr (by decide))
      (List.forall_mem_singleton.mpr (by decide))
  rw [if_neg (by decide)] at hread
  exact hread

/-- The number eleven in front of `h` is refused, unless there are more zeros in front of it. -/
theorem exists_spelling_refused : Spells .suffixed 11 ['0', 'B', 'h'] ∧ parse "0Bh" = .error (.bad "0Bh") ∧
    Spells .suffixed 11 ['0', '0', 'B', 'h'] ∧ parse "00Bh" = .ok 11 := by
  have hone : Digits 16 11 ['0', 'B'] := ⟨1, by decide⟩
  have htwo : Digits 16 11 ['0', '0', 'B'] := ⟨2, by decide⟩
  have hmark : 'h'.toLower = 'h' := by decide
  exact ⟨.suffixed hone hmark, by decide +kernel, .suffixed htwo hmark, by decide +kernel⟩

end Numeral

end StackDepth
