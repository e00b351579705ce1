import Mathlib
import StackDepth.Text.Blank
import StackDepth.Text.Split

/-!
# Cutting what was joined

Words are joined by separators that occur in none of them. Cutting the text at the separators gives the
words back, and trimming removes the blanks that stand between them.

* `Text.IsWord`: a text without white space and without the separators of assembly text;
* `Text.splitOn_joinWith`: a list of texts joined by a character;
* `Text.splitOn_commaJoin`: a list of words joined by commas and blanks;
* `Text.lines_unlines`: a list of lines;
* `Text.columns_injective`: a list of lines that are made of columns.
-/

namespace StackDepth

namespace Text

variable {p : Char → Bool} {c : Char} {cs ds : List Char}

/-! ### Cutting -/

theorem splitWith_of_none (h : ∀ d ∈ cs, p d = false) : splitWith p cs = [cs] := by
  induction cs with
  | nil => rfl
  | cons d cs ih =>
    have hrest := ih fun e he => h e (List.mem_cons_of_mem d he)
    rw [splitWith, h d List.mem_cons_self, hrest]
    rfl

theorem splitWith_append_cons (h : ∀ d ∈ cs, p d = false) (hc : p c = true) (ds : List Char) :
    splitWith p (cs ++ c :: ds) = cs :: splitWith p ds := by
  induction cs with
  | nil => rw [List.nil_append, splitWith, if_pos hc]
  | cons d cs ih =>
    have hrest := ih fun e he => h e (List.mem_cons_of_mem d he)
    rw [List.cons_append, splitWith, h d List.mem_cons_self, hrest]
    rfl

theorem cutWith?_of_none (h : ∀ d ∈ cs, p d = false) : cutWith? p cs = none := by
  induction cs with
  | nil => rfl
  | cons d cs ih =>
    have hrest := ih fun e he => h e (List.mem_cons_of_mem d he)
    rw [cutWith?, h d List.mem_cons_self, hrest]
    rfl

theorem cutWith?_append_cons (h : ∀ d ∈ cs, p d = false) (hc : p c = true) (ds : List Char) :
    cutWith? p (cs ++ c :: ds) = some (cs, ds) := by
  induction cs with
  | nil => rw [List.nil_append, cutWith?, if_pos hc]
  | cons d cs ih =>
    have hrest := ih fun e he => h e (List.mem_cons_of_mem d he)
    rw [List.cons_append, cutWith?, h d List.mem_cons_self, hrest]
    rfl

/-- A text is told by what stands before and after the first occurrence of a character. -/
theorem append_cons_inj {cs' ds' : List Char} (h : c ∉ cs) (h' : c ∉ cs')
    (heq : cs ++ c :: ds = cs' ++ c :: ds') : cs = cs' ∧ ds = ds' := by
  have hcut : ∀ {cs : List Char}, c ∉ cs → ∀ ds, cutWith? (· == c) (cs ++ c :: ds) = some (cs, ds) :=
    fun h => cutWith?_append_cons (fun d hd => beq_false_of_ne fun heq => h (heq ▸ hd)) (beq_self_eq_true c)
  have hpair := (hcut h ds).symm.trans (heq ▸ hcut h' ds')
  exact Prod.mk.inj (Option.some.inj hpair)

theorem beforeDouble_of_not_mem (h : c ∉ cs) : beforeDouble c cs = cs := by
  induction cs with
  | nil => rfl
  | cons d cs ih =>
    have hne : (d == c) = false := beq_false_of_ne fun heq => h (heq ▸ List.mem_cons_self)
    rw [beforeDouble, hne, Bool.false_and, ih fun hmem => h (List.mem_cons_of_mem d hmem)]
    rfl

/-! ### Trimming -/

/-- A text that neither begins nor ends with white space. -/
def HasSolidEnds (cs : List Char) : Prop :=
  (∀ c ∈ cs.head?, isBlank c = false) ∧ ∀ c ∈ cs.getLast?, isBlank c = false

theorem dropWhile_isBlank (h : ∀ c ∈ cs.head?, isBlank c = false) : cs.dropWhile isBlank = cs := by
  cases cs with
  | nil => rfl
  | cons c cs => rw [List.dropWhile_cons, h c rfl, if_neg Bool.false_ne_true]

theorem HasSolidEnds.trimList (h : HasSolidEnds cs) : trimList cs = cs := by
  have hlast : ∀ c ∈ cs.reverse.head?, isBlank c = false := by
    rw [List.head?_reverse]
    exact h.2
  rw [Text.trimList, dropWhile_isBlank h.1, dropWhile_isBlank hlast, List.reverse_reverse]

theorem hasSolidEnds_trimList (cs : List Char) : HasSolidEnds (trimList cs) := by
  have hhead : ∀ (ds : List Char), ∀ c ∈ (ds.dropWhile isBlank).head?, isBlank c = false := by
    intro ds c hc
    have hnot := List.head?_dropWhile_not isBlank ds
    rw [Option.mem_def.mp hc] at hnot
    exact hnot
  refine ⟨fun c hc => ?_, fun c hc => ?_⟩
  · -- what is left of a list without blanks at its start begins in the same way
    obtain ⟨tail, htail⟩ := List.rdropWhile_prefix isBlank (l := cs.dropWhile isBlank)
    refine hhead cs c ?_
    rw [← htail, List.head?_append, List.rdropWhile, ← trimList, Option.mem_def.mp hc]
    rfl
  · rw [trimList, List.getLast?_reverse] at hc
    exact hhead _ c hc

theorem trim_trim (s : String) : trim (trim s) = trim s := by
  rw [trim, trim, String.toList_ofList, (hasSolidEnds_trimList s.toList).trimList]

theorem dropWhile_isBlank_append (hbefore : ∀ c ∈ ds, isBlank c = true)
    (h : ∀ c ∈ cs.head?, isBlank c = false) :
    (ds ++ cs).dropWhile isBlank = cs := by
  rw [List.dropWhile_append_of_pos hbefore, dropWhile_isBlank h]

/-- White space around a text is removed. -/
theorem HasSolidEnds.trimList_append (h : HasSolidEnds cs) (hne : cs ≠ []) {before after : List Char}
    (hbefore : ∀ c ∈ before, isBlank c = true) (hafter : ∀ c ∈ after, isBlank c = true) :
    Text.trimList (before ++ cs ++ after) = cs := by
  have hhead : ∀ c ∈ (cs ++ after).head?, isBlank c = false := by
    rw [List.head?_append_of_ne_nil _ hne]
    exact h.1
  have hlast : ∀ c ∈ cs.reverse.head?, isBlank c = false := by
    rw [List.head?_reverse]
    exact h.2
  rw [Text.trimList, List.append_assoc, dropWhile_isBlank_append hbefore hhead, List.reverse_append,
    dropWhile_isBlank_append (fun c hc => hafter c (List.mem_reverse.mp hc)) hlast, List.reverse_reverse]

theorem trimList_blank (cs : List Char) : trimList (' ' :: cs) = trimList cs := by
  rw [trimList, List.dropWhile_cons, if_pos (by decide), ← trimList]

theorem HasSolidEnds.append (hc : ∀ c ∈ cs.head?, isBlank c = false) (hcs : cs ≠ [])
    (hd : ∀ d ∈ ds.getLast?, isBlank d = false) (hds : ds ≠ []) : HasSolidEnds (cs ++ ds) := by
  refine ⟨?_, ?_⟩
  · rwa [List.head?_append_of_ne_nil _ hcs]
  · rwa [List.getLast?_append_of_ne_nil _ hds]

/-! ### Words -/

/-- Neither white space nor one of the separators of assembly text. -/
def isPlain (c : Char) : Bool := !(isBlank c || c == ',' || c == ';' || c == '/' || c == ':')

/-- A text of plain characters that is not empty. -/
def IsWord (cs : List Char) : Prop := cs ≠ [] ∧ ∀ c ∈ cs, isPlain c = true

instance (cs : List Char) : Decidable (IsWord cs) :=
  decidable_of_iff (cs ≠ [] ∧ cs.all isPlain = true) (and_congr_right' List.all_eq_true)

theorem not_isBlank_of_isPlain (h : isPlain c = true) : isBlank c = false := by
  cases hblank : isBlank c with
  | false => rfl
  | true => simp [isPlain, hblank] at h

theorem ne_of_isPlain (h : isPlain c = true) {d : Char} (hd : isPlain d = false) : (c == d) = false := by
  refine beq_false_of_ne ?_
  rintro rfl
  exact Bool.false_ne_true (hd.symm.trans h)

namespace IsWord

variable {cs ds : List Char}

theorem append (hc : IsWord cs) (hd : IsWord ds) : IsWord (cs ++ ds) := by
  refine ⟨fun h => hc.1 (List.append_eq_nil_iff.mp h).1, fun c hmem => ?_⟩
  rcases List.mem_append.mp hmem with hmem | hmem
  · exact hc.2 c hmem
  · exact hd.2 c hmem

theorem hasSolidEnds (h : IsWord cs) : HasSolidEnds cs :=
  ⟨fun c hc => not_isBlank_of_isPlain (h.2 c (List.mem_of_head? hc)),
    fun c hc => not_isBlank_of_isPlain (h.2 c (List.mem_of_getLast? hc))⟩

end IsWord

/-! ### Texts without white space -/

/-- A text without white space. -/
def IsSolid (s : String) : Prop := ∀ c ∈ s.toList, isBlank c = false

instance (s : String) : Decidable (IsSolid s) :=
  decidable_of_iff (s.toList.all (fun c => isBlank c == false) = true) (by simp [IsSolid])

theorem IsWord.isSolid {s : String} (h : IsWord s.toList) : IsSolid s :=
  fun c hc => not_isBlank_of_isPlain (h.2 c hc)

theorem IsSolid.append {s t : String} (hs : IsSolid s) (ht : IsSolid t) : IsSolid (s ++ t) := by
  intro c hc
  rw [String.toList_append, List.mem_append] at hc
  exact hc.elim (hs c) (ht c)

theorem IsSolid.not_mem {s : String} (h : IsSolid s) (hc : isBlank c = true) : c ∉ s.toList := fun hmem =>
  absurd (h c hmem) (by simp [hc])

/-! ### Joined texts -/

/-- Every text but the first stands behind a separator. -/
theorem toList_joinWith_cons (sep s : String) (rest : List String) :
    (joinWith sep (s :: rest)).toList = s.toList ++ rest.flatMap fun t => sep.toList ++ t.toList := by
  rw [joinWith]
  induction rest generalizing s with
  | nil => simp
  | cons t rest ih =>
    rw [List.foldl_cons, ih]
    simp

theorem joinWith_append (sep : String) {ss ts : List String} (hs : ss ≠ []) (ht : ts ≠ []) :
    joinWith sep (ss ++ ts) = joinWith sep ss ++ sep ++ joinWith sep ts := by
  obtain ⟨s, ss, rfl⟩ := List.exists_cons_of_ne_nil hs
  obtain ⟨t, ts, rfl⟩ := List.exists_cons_of_ne_nil ht
  refine String.toList_injective ?_
  rw [List.cons_append, toList_joinWith_cons, String.toList_append, String.toList_append, toList_joinWith_cons,
    toList_joinWith_cons, List.flatMap_append, List.flatMap_cons]
  simp only [List.append_assoc]

/-- Cutting at the separator gives the texts back. -/
theorem splitOn_joinWith {sep : Char} {ss : List String} (hne : ss ≠ []) (h : ∀ s ∈ ss, sep ∉ s.toList) :
    splitOn sep (joinWith (String.ofList [sep]) ss).toList = ss.map String.toList := by
  have hcut : ∀ s ∈ ss, ∀ c ∈ s.toList, (c == sep) = false :=
    fun s hs c hc => beq_false_of_ne fun heq => h s hs (heq ▸ hc)
  obtain ⟨s, rest, rfl⟩ := List.exists_cons_of_ne_nil hne
  rw [toList_joinWith_cons, String.toList_ofList]
  clear hne h
  induction rest generalizing s with
  | nil => rw [List.flatMap_nil, List.append_nil, splitOn, splitWith_of_none (hcut s List.mem_cons_self)]; rfl
  | cons t rest ih =>
    rw [List.flatMap_cons, List.append_assoc, List.singleton_append, splitOn,
      splitWith_append_cons (hcut s List.mem_cons_self) (beq_self_eq_true sep), ← splitOn,
      ih t fun u hu => hcut u (List.mem_cons_of_mem s hu)]
    rfl

theorem not_mem_joinWith {sep : String} {ss : List String} (hsep : c ∉ sep.toList)
    (h : ∀ s ∈ ss, c ∉ s.toList) : c ∉ (joinWith sep ss).toList := by
  cases ss with
  | nil => simp [joinWith]
  | cons s rest =>
    rw [toList_joinWith_cons, List.mem_append, List.mem_flatMap]
    rintro (hmem | ⟨t, ht, hmem⟩)
    · exact h s List.mem_cons_self hmem
    · exact (List.mem_append.mp hmem).elim hsep (h t (List.mem_cons_of_mem s ht))

/-! ### Words joined by commas -/

/-- Texts separated by commas and blanks. -/
def commaJoin : List (List Char) → List Char
  | [] => []
  | [w] => w
  | w :: ws => w ++ ',' :: ' ' :: commaJoin ws

theorem commaJoin_cons {w : List Char} {ws : List (List Char)} (h : ws ≠ []) :
    commaJoin (w :: ws) = w ++ ',' :: ' ' :: commaJoin ws := by
  cases ws with
  | nil => exact absurd rfl h
  | cons v ws => rfl

theorem toList_joinWith (ss : List String) :
    (joinWith ", " ss).toList = commaJoin (ss.map String.toList) := by
  have hjoin : ∀ (rest : List String) (s : String),
      commaJoin ((s :: rest).map String.toList) =
        s.toList ++ rest.flatMap fun t => ", ".toList ++ t.toList := by
    intro rest
    induction rest with
    | nil => simp [commaJoin]
    | cons t rest ih =>
      intro s
      rw [List.map_cons, commaJoin_cons (by simp), ih]
      simp
  cases ss with
  | nil => rfl
  | cons s rest => rw [toList_joinWith_cons, hjoin]

theorem commaJoin_ne_nil {w : List Char} {ws : List (List Char)} (h : w ≠ []) :
    commaJoin (w :: ws) ≠ [] := by
  cases ws with
  | nil => exact h
  | cons v ws => simp [commaJoin]

/-- Every character stands in one of the words or in a separator. -/
theorem mem_commaJoin {ws : List (List Char)} (h : c ∈ commaJoin ws) :
    c = ',' ∨ c = ' ' ∨ ∃ w ∈ ws, c ∈ w := by
  induction ws with
  | nil => simp [commaJoin] at h
  | cons w ws ih =>
    by_cases hws : ws = []
    · subst hws
      exact .inr (.inr ⟨w, List.mem_cons_self, h⟩)
    · rw [commaJoin_cons hws, List.mem_append, List.mem_cons, List.mem_cons] at h
      rcases h with h | h | h | h
      · exact .inr (.inr ⟨w, List.mem_cons_self, h⟩)
      · exact .inl h
      · exact .inr (.inl h)
      · rcases ih h with h | h | ⟨v, hv, hc⟩
        · exact .inl h
        · exact .inr (.inl h)
        · exact .inr (.inr ⟨v, List.mem_cons_of_mem w hv, hc⟩)

theorem hasSolidEnds_commaJoin {ws : List (List Char)} (h : ∀ w ∈ ws, IsWord w) :
    HasSolidEnds (commaJoin ws) := by
  induction ws with
  | nil => exact ⟨by simp [commaJoin], by simp [commaJoin]⟩
  | cons w ws ih =>
    have hw := h w List.mem_cons_self
    have hrest := ih fun v hv => h v (List.mem_cons_of_mem w hv)
    cases ws with
    | nil => exact hw.hasSolidEnds
    | cons v ws =>
      have hne : commaJoin (v :: ws) ≠ [] :=
        commaJoin_ne_nil (h v (List.mem_cons_of_mem w List.mem_cons_self)).1
      refine HasSolidEnds.append hw.hasSolidEnds.1 hw.1 ?_ (by simp)
      rw [List.getLast?_cons_cons, List.getLast?_cons, List.getLast?_eq_some_getLast hne]
      have hlast := hrest.2
      rw [List.getLast?_eq_some_getLast hne] at hlast
      exact hlast

/-- Every part but the first begins with the blank behind the comma. -/
theorem splitOn_commaJoin_cons {w : List Char} {ws : List (List Char)}
    (hw : ∀ c ∈ w, (c == ',') = false) (hws : ∀ v ∈ ws, ∀ c ∈ v, (c == ',') = false) :
    splitOn ',' (commaJoin (w :: ws)) = w :: ws.map (' ' :: ·) := by
  induction ws generalizing w with
  | nil => rw [commaJoin, splitOn, splitWith_of_none hw, List.map_nil]
  | cons v ws ih =>
    have hblank : ' ' :: commaJoin (v :: ws) = commaJoin ((' ' :: v) :: ws) := by
      cases ws <;> rfl
    have hv : ∀ c ∈ ' ' :: v, (c == ',') = false := by
      intro c hc
      rcases List.mem_cons.mp hc with rfl | hc
      · rfl
      · exact hws v List.mem_cons_self c hc
    rw [commaJoin_cons (by simp), splitOn, splitWith_append_cons hw rfl, hblank, ← splitOn,
      ih hv fun u hu => hws u (List.mem_cons_of_mem v hu), List.map_cons]

/-- Cutting at the commas and trimming gives the words back. -/
theorem splitOn_commaJoin {ws : List (List Char)} (hne : ws ≠ []) (h : ∀ w ∈ ws, IsWord w) :
    (splitOn ',' (commaJoin ws)).map trimList = ws := by
  have hplain : ∀ w ∈ ws, ∀ c ∈ w, (c == ',') = false :=
    fun w hw c hc => ne_of_isPlain ((h w hw).2 c hc) (by decide)
  have htrim : ∀ w ∈ ws, trimList w = w := fun w hw => (h w hw).hasSolidEnds.trimList
  cases ws with
  | nil => exact absurd rfl hne
  | cons w ws =>
    rw [splitOn_commaJoin_cons (hplain w List.mem_cons_self)
      fun v hv => hplain v (List.mem_cons_of_mem w hv), List.map_cons, htrim w List.mem_cons_self,
      List.map_map]
    refine congrArg (w :: ·) ((List.map_congr_left fun v hv => ?_).trans (List.map_id ws))
    rw [Function.comp_apply, trimList_blank, htrim v (List.mem_cons_of_mem w hv), id]

/-! ### Lines -/

theorem toList_unlines (ls : List String) :
    (unlines ls).toList = ls.flatMap fun l => l.toList ++ ['\n'] := by
  have hfold : ∀ (ls : List String) (s : String),
      (ls.foldl (fun acc l => acc ++ l ++ "\n") s).toList =
        s.toList ++ ls.flatMap fun l => l.toList ++ ['\n'] := by
    intro ls
    induction ls with
    | nil => simp
    | cons l ls ih =>
      intro s
      rw [List.foldl_cons, ih]
      simp
  rw [unlines, hfold]
  rfl

/-- The lines of a text that was made of lines, and the empty one behind the last line feed. -/
theorem lines_unlines {ls : List String} (h : ∀ l ∈ ls, '\n' ∉ l.toList) :
    lines (unlines ls) = ls.map String.toList ++ [[]] := by
  rw [lines, toList_unlines, splitOn]
  induction ls with
  | nil => rfl
  | cons l ls ih =>
    have hl : ∀ c ∈ l.toList, (c == '\n') = false :=
      fun c hc => beq_false_of_ne fun heq => h l List.mem_cons_self (heq ▸ hc)
    rw [List.flatMap_cons, List.append_assoc, List.singleton_append, splitWith_append_cons hl rfl,
      ih fun m hm => h m (List.mem_cons_of_mem l hm)]
    rfl

/-- A text tells its lines. -/
theorem unlines_injective {ls ls' : List String} (h : ∀ l ∈ ls, '\n' ∉ l.toList)
    (h' : ∀ l ∈ ls', '\n' ∉ l.toList) (heq : unlines ls = unlines ls') : ls = ls' := by
  have hlines : ls.map String.toList ++ [[]] = ls'.map String.toList ++ [[]] := by
    rw [← lines_unlines h, ← lines_unlines h', heq]
  exact (List.map_inj_right fun _ _ => String.toList_injective).mp (List.append_cancel_right hlines)

/-- A text of lines that are made of columns tells the columns. -/
theorem columns_injective {t t' : List (List String)} (h : ∀ ws ∈ t, ws ≠ [] ∧ ∀ w ∈ ws, IsSolid w)
    (h' : ∀ ws ∈ t', ws ≠ [] ∧ ∀ w ∈ ws, IsSolid w)
    (heq : unlines (t.map (joinWith " ")) = unlines (t'.map (joinWith " "))) : t = t' := by
  have hcut : ∀ {t : List (List String)}, (∀ ws ∈ t, ws ≠ [] ∧ ∀ w ∈ ws, IsSolid w) →
      (t.map (joinWith " ")).map (fun l => splitOn ' ' l.toList) = t.map (List.map String.toList) := by
    intro t ht
    rw [List.map_map]
    exact List.map_congr_left fun ws hws =>
      splitOn_joinWith (ht ws hws).1 fun w hw => ((ht ws hws).2 w hw).not_mem rfl
  have hfeed : ∀ {t : List (List String)}, (∀ ws ∈ t, ws ≠ [] ∧ ∀ w ∈ ws, IsSolid w) →
      ∀ l ∈ t.map (joinWith " "), '\n' ∉ l.toList := by
    intro t ht l hl
    obtain ⟨ws, hws, rfl⟩ := List.mem_map.mp hl
    exact not_mem_joinWith (by simp) fun w hw => ((ht ws hws).2 w hw).not_mem rfl
  have hlines := unlines_injective (hfeed h) (hfeed h') heq
  have hcolumns : t.map (List.map String.toList) = t'.map (List.map String.toList) := by
    rw [← hcut h, ← hcut h', hlines]
  exact (List.map_inj_right fun _ _ => (List.map_inj_right fun _ _ => String.toList_injective).mp).mp hcolumns

/-- A text without a line feed is a line. -/
theorem lines_of_not_mem {s : String} (h : '\n' ∉ s.toList) : lines s = [s.toList] :=
  splitWith_of_none fun _ hc => beq_false_of_ne fun heq => h (heq ▸ hc)

end Text

end StackDepth
