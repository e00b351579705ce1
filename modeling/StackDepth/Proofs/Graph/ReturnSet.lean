import Mathlib
import StackDepth.Graph.ReturnSet

/-!
# Return sets as finite sets

A return set has one of three forms, and adding to one may give another. What can be seen of it does not
tell the form: it is that of the finite set of its elements, whose members are listed in increasing order
and each once. Adding a list to a return set gives the union, and the elements reported as new are those
that were not there.

Main statements:

* `ReturnSet.contains_add` and `ReturnSet.add_snd`: one addition, in each of the three forms;
* `ReturnSet.contains_addAll`, `ReturnSet.mem_fresh`, `ReturnSet.size_addAll`, `ReturnSet.size_le`;
* `ReturnSet.refines_adding`: any sequence of additions.
-/

namespace StackDepth

namespace ReturnSet

/-! ### The elements -/

/-- The elements of a return set. -/
def elements (s : ReturnSet) : Finset Nat := s.items.toFinset

theorem contains_empty (r : Nat) : ({} : ReturnSet).contains r = false := rfl

theorem contains_single (a r : Nat) : (single a).contains r = true ↔ r = a := by
  rw [contains, beq_iff_eq, eq_comm]

theorem pairwise_items (s : ReturnSet) : s.items.Pairwise (· < ·) := by
  cases s with
  | empty => exact List.Pairwise.nil
  | single a => exact List.pairwise_singleton _ a
  | tree elements =>
    exact (Std.TreeSet.ordered_toList (t := elements)).imp fun h => Nat.compare_eq_lt.mp h

theorem nodup_items (s : ReturnSet) : s.items.Nodup := s.pairwise_items.imp Nat.ne_of_lt

theorem mem_items (s : ReturnSet) (r : Nat) : r ∈ s.items ↔ s.contains r = true := by
  cases s with
  | empty => simp [items, contains]
  | single a => rw [contains_single, items, List.mem_singleton]
  | tree elements => rw [items, contains, Std.TreeSet.mem_toList, Std.TreeSet.contains_iff_mem]

theorem mem_elements (s : ReturnSet) (r : Nat) : r ∈ s.elements ↔ s.contains r = true := by
  rw [elements, List.mem_toFinset, mem_items]

theorem not_mem_elements (s : ReturnSet) (r : Nat) : r ∉ s.elements ↔ s.contains r = false := by
  rw [mem_elements, Bool.not_eq_true]

theorem size_eq_card (s : ReturnSet) : s.size = s.elements.card := by
  rw [elements, List.toFinset_card_of_nodup s.nodup_items]
  cases s with
  | empty => rfl
  | single a => rfl
  | tree elements => exact Std.TreeSet.length_toList.symm

theorem items_eq_sort (s : ReturnSet) : s.items = s.elements.sort (· ≤ ·) := by
  have hsorted : s.items.Pairwise (· ≤ ·) := s.pairwise_items.imp Nat.le_of_lt
  exact ((List.toFinset_sort (· ≤ ·) s.nodup_items).mpr hsorted).symm

theorem elements_empty : empty.elements = ∅ := rfl

theorem size_eq_zero_iff (s : ReturnSet) : s.size = 0 ↔ ∀ r, s.contains r = false := by
  rw [size_eq_card, Finset.card_eq_zero, Finset.eq_empty_iff_forall_notMem]
  exact forall_congr' s.not_mem_elements

/-- A set of numbers below `n` has at most `n` elements. -/
theorem size_le {s : ReturnSet} {n : Nat} (h : ∀ r, s.contains r = true → r < n) : s.size ≤ n := by
  have hsub : s.elements ⊆ Finset.range n := by
    intro r hr
    exact Finset.mem_range.mpr (h r ((mem_elements s r).mp hr))
  have hle := Finset.card_le_card hsub
  rwa [Finset.card_range, ← size_eq_card] at hle

/-! ### Adding -/

theorem contains_insert (t : Std.TreeSet Nat) (id r : Nat) :
    (t.insert id).contains r = true ↔ r = id ∨ t.contains r = true := by
  rw [Std.TreeSet.contains_insert, Bool.or_eq_true, beq_iff_eq, Std.LawfulEqCmp.compare_eq_iff_eq,
    eq_comm]

theorem contains_add (s : ReturnSet) (id r : Nat) :
    (s.add id).1.contains r = true ↔ r = id ∨ s.contains r = true := by
  cases s with
  | empty =>
    rw [add, contains_single]
    exact (or_iff_left Bool.false_ne_true).symm
  | single a =>
    by_cases ha : a = id
    · rw [add, if_pos ha, contains_single, ha, or_self]
    · -- the tree takes over the element that stood by itself
      have hfirst := contains_insert (∅ : Std.TreeSet Nat) a r
      have hsecond := contains_insert ((∅ : Std.TreeSet Nat).insert a) id r
      have hnone : ¬ (∅ : Std.TreeSet Nat).contains r = true := by simp
      rw [add, if_neg ha, contains_single]
      exact hsecond.trans (or_congr_right (hfirst.trans (or_iff_left hnone)))
  | tree elements =>
    rw [add]
    split
    · next hid =>
      refine ⟨.inr, ?_⟩
      rintro (rfl | hr)
      · exact hid
      · exact hr
    · exact contains_insert elements id r

/-- An addition tells whether the element is new. -/
theorem add_snd (s : ReturnSet) (id : Nat) : (s.add id).2 = !s.contains id := by
  cases s with
  | empty => rfl
  | single a =>
    by_cases ha : a = id
    · simp [add, contains, ha]
    · simp [add, contains, ha]
  | tree elements =>
    rw [add, contains]
    cases elements.contains id <;> rfl

theorem elements_add (s : ReturnSet) (id : Nat) : (s.add id).1.elements = insert id s.elements := by
  ext r
  rw [mem_elements, contains_add, Finset.mem_insert, mem_elements]

theorem size_add (s : ReturnSet) (id : Nat) :
    (s.add id).1.size = s.size + if (s.add id).2 then 1 else 0 := by
  rw [size_eq_card, size_eq_card, elements_add, add_snd]
  cases hs : s.contains id with
  | true => rw [Finset.insert_eq_of_mem ((mem_elements s id).mpr hs)]; rfl
  | false => exact Finset.card_insert_of_notMem ((not_mem_elements s id).mpr hs)

theorem contains_addAll (s : ReturnSet) (l : List Nat) (r : Nat) :
    (s.addAll l).1.contains r = true ↔ s.contains r = true ∨ r ∈ l := by
  induction l generalizing s with
  | nil => simp [addAll]
  | cons id rest ih =>
    rw [addAll]
    dsimp only
    rw [ih, contains_add, List.mem_cons]
    tauto

/-- The elements reported as new are those of the list that the set did not have. -/
theorem mem_fresh (s : ReturnSet) (l : List Nat) (r : Nat) :
    r ∈ (s.addAll l).2 ↔ r ∈ l ∧ s.contains r = false := by
  induction l generalizing s with
  | nil => simp [addAll]
  | cons id rest ih =>
    have hrest := ih (s.add id).1
    have hadd : (s.add id).1.contains r = false ↔ r ≠ id ∧ s.contains r = false := by
      rw [← Bool.not_eq_true, contains_add, not_or, Bool.not_eq_true]
    rw [hadd] at hrest
    rw [addAll]
    dsimp only
    rw [add_snd]
    by_cases hr : r = id
    · subst hr
      cases hs : s.contains r <;> simp [hs, hrest]
    · cases s.contains id <;> simp [hrest, hr]

theorem size_addAll (s : ReturnSet) (l : List Nat) :
    (s.addAll l).1.size = s.size + (s.addAll l).2.length := by
  induction l generalizing s with
  | nil => rfl
  | cons id rest ih =>
    rw [addAll]
    dsimp only
    rw [ih, size_add]
    cases (s.add id).2 with
    | true =>
      simp
      omega
    | false => simp

/-! ### Any sequence of additions -/

/-- The set that a sequence of additions to the empty set leaves. -/
def adding (ids : List Nat) : ReturnSet := ids.foldl (fun s id => (s.add id).1) empty

/-- What can be seen of a return set, and of one more addition to it, is told by a finite set. -/
structure Refines (s : ReturnSet) (t : Finset Nat) : Prop where
  /-- An addition tells whether the element is new. -/
  new_iff : ∀ x, (s.add x).2 = true ↔ x ∉ t
  /-- The elements are found, and nothing else. -/
  contains_iff : ∀ x, s.contains x = true ↔ x ∈ t
  /-- The size is the number of elements. -/
  size_eq : s.size = t.card
  /-- The elements are listed in increasing order, each once. -/
  ascending : s.items.Pairwise (· < ·)
  /-- All elements are listed, and nothing else. -/
  mem_iff : ∀ x, x ∈ s.items ↔ x ∈ t

/-- Two return sets look the same. -/
structure LooksLike (s t : ReturnSet) : Prop where
  /-- They contain the same elements. -/
  contains_eq : ∀ x, s.contains x = t.contains x
  /-- They have the same number of elements. -/
  size_eq : s.size = t.size
  /-- They list the elements in the same order. -/
  items_eq : s.items = t.items

theorem refines_elements (s : ReturnSet) : s.Refines s.elements where
  new_iff x := by rw [add_snd, Bool.not_eq_true', not_mem_elements]
  contains_iff x := (s.mem_elements x).symm
  size_eq := s.size_eq_card
  ascending := s.pairwise_items
  mem_iff x := by rw [mem_items, mem_elements]

/-- The elements alone tell what a return set looks like, whatever its form. -/
theorem looksLike_of_elements_eq {s t : ReturnSet} (h : s.elements = t.elements) : s.LooksLike t where
  contains_eq x := by
    have hx : s.contains x = true ↔ t.contains x = true := by rw [← mem_elements, h, mem_elements]
    exact Bool.eq_iff_iff.mpr hx
  size_eq := by rw [size_eq_card, size_eq_card, h]
  items_eq := by rw [items_eq_sort, items_eq_sort, h]

theorem elements_foldl (ids : List Nat) (s : ReturnSet) :
    (ids.foldl (fun s id => (s.add id).1) s).elements = ids.toFinset ∪ s.elements := by
  induction ids generalizing s with
  | nil => simp
  | cons id ids ih =>
    rw [List.foldl_cons, ih, elements_add, List.toFinset_cons, Finset.insert_union,
      Finset.union_insert]

theorem elements_adding (ids : List Nat) : (adding ids).elements = ids.toFinset := by
  rw [adding, elements_foldl, elements_empty, Finset.union_empty]

/-- After any sequence of additions a return set looks like the finite set of the numbers that were added,
and the next addition tells whether its number is among them. Neither order nor repetition can be seen. A
set that is missing looks empty. -/
theorem refines_adding (ids : List Nat) :
    (adding ids).Refines ids.toFinset ∧
      (∀ others : List Nat, (∀ x, x ∈ others ↔ x ∈ ids) → (adding others).LooksLike (adding ids)) ∧
      (seen none).size = 0 ∧ (seen none).items = [] ∧ ∀ x, (seen none).contains x = false := by
  refine ⟨?_, fun others hsame => ?_, rfl, rfl, fun x => rfl⟩
  · rw [← elements_adding]
    exact refines_elements (adding ids)
  · apply looksLike_of_elements_eq
    rw [elements_adding, elements_adding]
    ext x
    rw [List.mem_toFinset, List.mem_toFinset, hsame]

/-- The second element makes a tree, which has the first one too. -/
example : (adding [7, 7]).items = [7] ∧ ((adding [7, 7]).add 3).2 = true ∧
    (adding [7, 7, 3]).items = [3, 7] ∧ ((adding [7, 7, 3]).add 7).2 = false := by
  decide

end ReturnSet

end StackDepth
