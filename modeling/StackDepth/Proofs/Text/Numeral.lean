import Mathlib
import StackDepth.Numeral
import StackDepth.Proofs.Text.Split
import StackDepth.Text.Hex
import StackDepth.Text.Pad

/-!
# Numbers are read back

The digits that a number is written with are those that the assembler reads, in base ten with any sign and
in base sixteen behind its prefix and with leading zeros.

* `Numeral.digitsFrom?_toDigits`: the digits of a number stand for it;
* `Numeral.parse_decimal`, `Numeral.parse_hex`: so do the texts that are made of them.
-/

namespace StackDepth

namespace Numeral

variable {base n : Nat} {cs : List Char}

/-! ### Digits -/

theorem digitsFrom?_append (base acc : Nat) (cs ds : List Char) :
    digitsFrom? base acc (cs ++ ds) = (digitsFrom? base acc cs).bind fun m => digitsFrom? base m ds := by
  induction cs generalizing acc with
  | nil => rfl
  | cons c cs ih =>
    rw [List.cons_append, digitsFrom?, digitsFrom?]
    cases digitIn? base c with
    | none => rfl
    | some d => exact ih _

theorem mem_toDigits (hbase : 1 < base) {c : Char} (h : c ∈ Nat.toDigits base n) :
    ∃ d < base, c = Nat.digitChar d := by
  induction n using Nat.strongRecOn with
  | ind n ih =>
    by_cases hn : n < base
    · rw [Nat.toDigits_of_lt_base hn, List.mem_singleton] at h
      exact ⟨n, hn, h⟩
    · rw [Nat.toDigits_of_base_le hbase (Nat.le_of_not_lt hn), List.mem_append,
        List.mem_singleton] at h
      rcases h with h | h
      · exact ih (n / base) (Nat.div_lt_self (by omega) hbase) h
      · exact ⟨n % base, Nat.mod_lt n (by omega), h⟩

/-- The digits of a number stand for it, in whatever case they are written. -/
theorem digitsFrom?_toDigits (hbase : 1 < base) {spell : Char → Char}
    (hspell : ∀ d < base, digitIn? base (spell (Nat.digitChar d)) = some d) (n : Nat) :
    digitsFrom? base 0 ((Nat.toDigits base n).map spell) = some n := by
  induction n using Nat.strongRecOn with
  | ind n ih =>
    by_cases hn : n < base
    · rw [Nat.toDigits_of_lt_base hn, List.map_singleton, digitsFrom?, hspell n hn]
      simp [digitsFrom?]
    · have hlast := hspell (n % base) (Nat.mod_lt n (by omega))
      rw [Nat.toDigits_of_base_le hbase (Nat.le_of_not_lt hn), List.map_append, List.map_singleton,
        digitsFrom?_append, ih (n / base) (Nat.div_lt_self (by omega) hbase), Option.bind_some,
        digitsFrom?, hlast]
      simp only [digitsFrom?, Nat.div_add_mod']

theorem digitsFrom?_zeros (hbase : 0 < base) (k : Nat) (cs : List Char) :
    digitsFrom? base 0 (List.replicate k '0' ++ cs) = digitsFrom? base 0 cs := by
  have hzero : digitIn? base '0' = some 0 := by
    rw [digitIn?, show digitValue? '0' = some 0 from rfl, Option.filter_some_pos (by simpa using hbase)]
  induction k with
  | zero => rfl
  | succ k ih =>
    rw [List.replicate_succ, List.cons_append, digitsFrom?, hzero]
    simpa using ih

theorem digitIn?_digitChar {d : Nat} (hbase : base ≤ 16) (hd : d < base) :
    digitIn? base (Nat.digitChar d) = some d := by
  have hvalue : ∀ d < 16, digitValue? (Nat.digitChar d) = some d := by decide
  rw [digitIn?, hvalue d (by omega), Option.filter_some_pos (by simpa using hd)]

theorem digitsFrom?_toDigits_self (hbase : 1 < base) (hbase' : base ≤ 16) (n : Nat) :
    digitsFrom? base 0 (Nat.toDigits base n) = some n := by
  have hread : digitsFrom? base 0 ((Nat.toDigits base n).map id) = some n :=
    digitsFrom?_toDigits hbase (fun d hd => digitIn?_digitChar hbase' hd) n
  rwa [List.map_id] at hread

/-- A number is told by its digits. -/
theorem toDigits_injective (hbase : 1 < base) (hbase' : base ≤ 16) {m n : Nat}
    (h : Nat.toDigits base m = Nat.toDigits base n) : m = n := by
  have hread := digitsFrom?_toDigits_self hbase hbase'
  exact Option.some.inj ((hread m).symm.trans (h ▸ hread n))

/-! ### Signs -/

theorem splitSign_of_ne (h : ∀ c ∈ cs.head?, c ≠ '-' ∧ c ≠ '+') : splitSign cs = (false, cs) := by
  unfold splitSign
  split
  · exact absurd rfl (h '-' rfl).1
  · exact absurd rfl (h '+' rfl).2
  · rfl

theorem signed?_of_digits (hne : cs ≠ []) (hsign : ∀ c ∈ cs.head?, c ≠ '-' ∧ c ≠ '+')
    (hdigits : digitsFrom? base 0 cs = some n) (hn : n < 0x80000000) : signed? base 32 cs = some (n : Int) := by
  have hmagnitude : magnitude? base cs = some n := by
    cases cs with
    | nil => exact absurd rfl hne
    | cons c cs => exact hdigits
  have hpow : ((Nat.pow 2 (32 - 1) : Nat) : Int) = 0x80000000 := rfl
  unfold signed?
  dsimp only
  generalize ((Nat.pow 2 (32 - 1) : Nat) : Int) = limit at hpow
  rw [splitSign_of_ne hsign]
  dsimp only
  rw [hmagnitude, Option.bind_some, applySign, if_neg Bool.false_ne_true, if_pos (by omega)]

/-- A sign in front of a text that has a notation. -/
theorem parseList_of_body {b : Bool} {body digits : List Char} {v : Int}
    (hsplit : splitSign (Text.trimList cs) = (b, body)) (hbody : body ≠ [])
    (hbase : baseAndDigits (body.map Text.lower) = (base, digits))
    (hsigned : signed? base 32 digits = some v) : parseList cs = .ok (applySign b v) := by
  have hempty : body.isEmpty = false := List.isEmpty_eq_false_iff.mpr hbody
  unfold parseList
  simp only [hsplit, hempty, hbase, hsigned, Bool.false_eq_true, if_false]

/-- A text whose digits stand for no number of its notation. -/
theorem parseList_of_refused {b : Bool} {body digits : List Char}
    (hsplit : splitSign (Text.trimList cs) = (b, body)) (hbody : body ≠ [])
    (hbase : baseAndDigits (body.map Text.lower) = (base, digits))
    (hsigned : signed? base 32 digits = none) : parseList cs = .error (.bad (String.ofList body)) := by
  have hempty : body.isEmpty = false := List.isEmpty_eq_false_iff.mpr hbody
  unfold parseList
  simp only [hsplit, hempty, hbase, hsigned, Bool.false_eq_true, if_false]

/-! ### Base ten -/

theorem toDigits_ten {c : Char} (h : c ∈ Nat.toDigits 10 n) : ∃ d < 10, c = Nat.digitChar d :=
  mem_toDigits (by decide) h

/-- Digits in base ten are plain, have no case and are no part of another notation. -/
theorem digitChar_ten {d : Nat} (h : d < 10) :
    Text.isPlain (Nat.digitChar d) = true ∧ Text.lower (Nat.digitChar d) = Nat.digitChar d ∧
      Text.upper (Nat.digitChar d) = Nat.digitChar d ∧
      Nat.digitChar d ∉ ['x', 'b', '$', 'h', '-', '+'] := by
  revert d
  decide +kernel

/-- A text without the marks of the other notations is in base ten. -/
theorem baseAndDigits_of_not_mem (h : ∀ c ∈ cs, c ∉ ['x', 'b', '$', 'h']) :
    baseAndDigits cs = (10, cs) := by
  unfold baseAndDigits
  split
  · next cs' => exact absurd (by simp) (h 'x' (by simp))
  · next cs' => exact absurd (by simp) (h 'b' (by simp))
  · next cs' => exact absurd (by simp) (h '$' (by simp))
  · rw [if_neg]
    rintro ⟨-, hlast⟩
    exact h 'h' (List.mem_of_getLast? hlast) (by simp)

theorem baseAndDigits_decimal (n : Nat) :
    baseAndDigits ((Nat.toDigits 10 n).map Text.lower) = (10, Nat.toDigits 10 n) := by
  have hchar : ∀ c ∈ Nat.toDigits 10 n, Text.lower c = c ∧ c ∉ ['x', 'b', '$', 'h', '-', '+'] := by
    intro c hc
    obtain ⟨d, hd, rfl⟩ := toDigits_ten hc
    exact ⟨(digitChar_ten hd).2.1, (digitChar_ten hd).2.2.2⟩
  have hlower : (Nat.toDigits 10 n).map Text.lower = Nat.toDigits 10 n :=
    (List.map_congr_left fun c hc => (hchar c hc).1).trans (List.map_id _)
  rw [hlower]
  exact baseAndDigits_of_not_mem fun c hc hmem =>
    (hchar c hc).2 (List.mem_append_left ['-', '+'] hmem)

theorem signed?_decimal (hn : n < 0x80000000) : signed? 10 32 (Nat.toDigits 10 n) = some (n : Int) := by
  have hdigits : digitsFrom? 10 0 (Nat.toDigits 10 n) = some n :=
    digitsFrom?_toDigits_self (by decide) (by decide) n
  refine signed?_of_digits Nat.toDigits_ne_nil (fun c hc => ?_) hdigits hn
  obtain ⟨d, hd, rfl⟩ := toDigits_ten (List.mem_of_head? hc)
  have hchar := (digitChar_ten hd).2.2.2
  exact ⟨fun heq => hchar (by simp [heq]), fun heq => hchar (by simp [heq])⟩

theorem isWord_toDigits (n : Nat) : Text.IsWord (Nat.toDigits 10 n) := by
  refine ⟨Nat.toDigits_ne_nil, fun c hc => ?_⟩
  obtain ⟨d, hd, rfl⟩ := toDigits_ten hc
  exact (digitChar_ten hd).1

theorem map_upper_toDigits (n : Nat) : (Nat.toDigits 10 n).map Text.upper = Nat.toDigits 10 n := by
  refine (List.map_congr_left fun c hc => ?_).trans (List.map_id _)
  obtain ⟨d, hd, rfl⟩ := toDigits_ten hc
  exact (digitChar_ten hd).2.2.1

/-- Digits in base ten behind a sign, or behind none. -/
theorem parseList_decimal (hn : n < 0x80000000) :
    parseList (Nat.toDigits 10 n) = .ok (n : Int) ∧ parseList ('+' :: Nat.toDigits 10 n) = .ok (n : Int) ∧
      parseList ('-' :: Nat.toDigits 10 n) = .ok (-(n : Int)) := by
  have hword := isWord_toDigits n
  have hsigns : Text.IsWord ['+'] ∧ Text.IsWord ['-'] := by decide
  have hplus := (hsigns.1.append hword).hasSolidEnds.trimList
  have hminus := (hsigns.2.append hword).hasSolidEnds.trimList
  rw [List.singleton_append] at hplus hminus
  have hbody := baseAndDigits_decimal n
  have hsigned := signed?_decimal hn
  refine ⟨?_, ?_, ?_⟩
  · refine parseList_of_body (b := false) ?_ hword.1 hbody hsigned
    rw [hword.hasSolidEnds.trimList]
    refine splitSign_of_ne fun c hc => ?_
    obtain ⟨d, hd, rfl⟩ := toDigits_ten (List.mem_of_head? hc)
    have hchar := (digitChar_ten hd).2.2.2
    exact ⟨fun heq => hchar (by simp [heq]), fun heq => hchar (by simp [heq])⟩
  · exact parseList_of_body (b := false) (by rw [hplus, splitSign]) hword.1 hbody hsigned
  · exact parseList_of_body (b := true) (by rw [hminus, splitSign]) hword.1 hbody hsigned

/-- A number in base ten is read back. -/
theorem parse_decimal {k : Int} (h : k.natAbs < 0x80000000) : parse (Text.decimal k) = .ok k := by
  cases k with
  | ofNat m =>
    rw [parse, Text.decimal, String.toList_ofList]
    exact (parseList_decimal h).1
  | negSucc m =>
    have hminus : "-".toList = ['-'] := rfl
    rw [parse, Text.decimal, String.toList_append, hminus, String.toList_ofList, List.singleton_append]
    exact (parseList_decimal h).2.2

theorem decimal_injective {m n : Nat} (h : Text.decimal m = Text.decimal n) : m = n :=
  toDigits_injective (by decide) (by decide) (String.ofList_injective h)

theorem isWord_decimal (k : Int) : Text.IsWord (Text.decimal k).toList := by
  cases k with
  | ofNat m =>
    rw [Text.decimal, String.toList_ofList]
    exact isWord_toDigits m
  | negSucc m =>
    rw [Text.decimal, String.toList_append]
    refine Text.IsWord.append (by decide) ?_
    rw [String.toList_ofList]
    exact isWord_toDigits (m + 1)

/-! ### Base sixteen -/

theorem digitChar_sixteen {d : Nat} (h : d < 16) :
    Text.isPlain (Nat.digitChar d).toUpper = true ∧
      digitIn? 16 (Text.lower (Nat.digitChar d).toUpper) = some d ∧
      Text.lower (Nat.digitChar d).toUpper ∉ ['-', '+'] := by
  revert d
  decide +kernel

theorem mem_hex {c : Char} {width : Nat} (h : c ∈ (Text.hex width n).toList) :
    ∃ d < 16, c = (Nat.digitChar d).toUpper := by
  rw [Text.hex, String.toList_ofList, List.mem_append] at h
  rcases h with h | h
  · exact ⟨0, by decide, List.eq_of_mem_replicate h⟩
  · obtain ⟨c', hc', rfl⟩ := List.mem_map.mp h
    obtain ⟨d, hd, rfl⟩ := mem_toDigits (by decide) hc'
    exact ⟨d, hd, rfl⟩

theorem digitsFrom?_hex (width n : Nat) :
    digitsFrom? 16 0 ((Text.hex width n).toList.map Text.lower) = some n := by
  have hzero : Text.lower '0' = '0' := by decide
  have hspell : ∀ d < 16, digitIn? 16 ((Text.lower ∘ Char.toUpper) (Nat.digitChar d)) = some d := by
    intro d hd
    rw [Function.comp_apply]
    exact (digitChar_sixteen hd).2.1
  rw [Text.hex, String.toList_ofList, List.map_append, List.map_replicate, hzero,
    digitsFrom?_zeros (by decide), Text.hexDigits, List.map_map]
  exact digitsFrom?_toDigits (by decide) hspell n

theorem hex_injective (width : Nat) {m n : Nat} (h : Text.hex width m = Text.hex width n) : m = n :=
  Option.some.inj ((digitsFrom?_hex width m).symm.trans (h ▸ digitsFrom?_hex width n))

theorem hex_ne_nil (width n : Nat) : (Text.hex width n).toList ≠ [] := by
  rw [Text.hex, String.toList_ofList, Text.hexDigits]
  simp [Nat.toDigits_ne_nil]

theorem isWord_digits_hex (width n : Nat) : Text.IsWord (Text.hex width n).toList := by
  refine ⟨hex_ne_nil width n, fun c hc => ?_⟩
  obtain ⟨d, hd, rfl⟩ := mem_hex hc
  exact (digitChar_sixteen hd).1

theorem isWord_hex (width n : Nat) : Text.IsWord ("0x" ++ Text.hex width n).toList := by
  rw [String.toList_append]
  exact Text.IsWord.append (by decide) (isWord_digits_hex width n)

/-- A number in base sixteen behind its prefix is read back. -/
theorem parse_hex (width : Nat) (hn : n < 0x80000000) :
    parse ("0x" ++ Text.hex width n) = .ok (n : Int) := by
  have hword := isWord_hex width n
  have hlist : ("0x" ++ Text.hex width n).toList = '0' :: 'x' :: (Text.hex width n).toList := by
    rw [String.toList_append, show "0x".toList = ['0', 'x'] by simp]
    rfl
  have hbody : baseAndDigits (('0' :: 'x' :: (Text.hex width n).toList).map Text.lower) =
      (16, (Text.hex width n).toList.map Text.lower) := by
    rw [List.map_cons, List.map_cons, show Text.lower '0' = '0' by decide,
      show Text.lower 'x' = 'x' by decide, baseAndDigits]
  rw [hlist] at hword
  rw [parse, hlist]
  refine parseList_of_body (b := false) ?_ (by simp) hbody
    (signed?_of_digits ?_ (fun c hc => ?_) (digitsFrom?_hex width n) hn)
  · rw [hword.hasSolidEnds.trimList]
    exact splitSign_of_ne (by simp)
  · simpa using hex_ne_nil width n
  · obtain ⟨c', hc', rfl⟩ := List.mem_map.mp (List.mem_of_head? hc)
    obtain ⟨d, hd, rfl⟩ := mem_hex hc'
    have hchar := (digitChar_sixteen hd).2.2
    exact ⟨fun heq => hchar (by simp [heq]), fun heq => hchar (by simp [heq])⟩

end Numeral

end StackDepth
