import Mathlib
import StackDepth.Graph.Components

/-!
# Depth-first search

A search keeps a stack of tasks. What it does to a list of states on top of the stack is described by a
recursive relation: a new state is visited together with all that its neighbours lead to, and is then
finished. The relation says which states are finished and in which order; the stack, the fuel and the
states finished before do not matter to it.

Main statements:

* `Search.run_visits`: with enough fuel, a search carries out the recursive relation;
* `Traversal.seen_iff`, `Traversal.neighbours_seen`, `Traversal.reached`: what is visited is what can be
  reached through new states;
* `Traversal.ordered`: the order in which states are finished.
-/

namespace StackDepth

/-- The neighbours of a state. -/
def neighbours (adj : Array (List StateId)) (u : StateId) : List StateId := adj.getD u []

/-- The state has been visited, or is no node. -/
def IsSeen (seen : Array Bool) (u : StateId) : Prop := seen.getD u true = true

instance (seen : Array Bool) (u : StateId) : Decidable (IsSeen seen u) :=
  inferInstanceAs (Decidable (_ = _))

theorem isSeen_setIfInBounds {seen : Array Bool} {v : StateId} (hv : ¬ IsSeen seen v) (u : StateId) :
    IsSeen (seen.setIfInBounds v true) u ↔ IsSeen seen u ∨ u = v := by
  have hlt : v < seen.size := by
    by_contra hge
    exact hv (by simp [IsSeen, Array.getD_eq_getD_getElem?, Array.getElem?_eq_none (Nat.le_of_not_lt hge)])
  by_cases huv : v = u
  · subst huv
    simp [IsSeen, Array.getD_eq_getD_getElem?, hlt]
  · simp [IsSeen, Array.getD_eq_getD_getElem?, Array.getElem?_setIfInBounds_ne huv, Ne.symm huv]

/-! ### The recursive relation -/

/-- Visiting a list of states: `done` are the states finished on the way, the latest first. -/
inductive Traversal (adj : Array (List StateId)) :
    Array Bool → List StateId → Array Bool → List StateId → Prop where
  /-- No state is left. -/
  | nil (seen : Array Bool) : Traversal adj seen [] seen []
  /-- A state that was visited before is left out. -/
  | skip {seen seen' : Array Bool} {v : StateId} {vs done : List StateId} (hv : IsSeen seen v)
      (h : Traversal adj seen vs seen' done) : Traversal adj seen (v :: vs) seen' done
  /-- A new state is visited with its neighbours, and finished. -/
  | visit {seen seen₁ seen₂ : Array Bool} {v : StateId} {vs done₁ done₂ : List StateId}
      (hv : ¬ IsSeen seen v)
      (h₁ : Traversal adj (seen.setIfInBounds v true) (neighbours adj v) seen₁ done₁)
      (h₂ : Traversal adj seen₁ vs seen₂ done₂) :
      Traversal adj seen (v :: vs) seen₂ (done₂ ++ v :: done₁)

namespace Traversal

variable {adj : Array (List StateId)} {seen seen' : Array Bool} {vs done : List StateId}

/-- What is seen afterwards was seen before or is finished. -/
theorem seen_iff (h : Traversal adj seen vs seen' done) (u : StateId) :
    IsSeen seen' u ↔ IsSeen seen u ∨ u ∈ done := by
  induction h with
  | nil seen => simp
  | skip _ _ ih => exact ih
  | visit hv _ _ ih₁ ih₂ =>
    rw [ih₂, ih₁, isSeen_setIfInBounds hv, List.mem_append, List.mem_cons]
    tauto

theorem not_seen_of_mem (h : Traversal adj seen vs seen' done) {u : StateId} (hu : u ∈ done) :
    ¬ IsSeen seen u := by
  induction h with
  | nil seen => exact absurd hu List.not_mem_nil
  | skip _ _ ih => exact ih hu
  | visit hv h₁ _ ih₁ ih₂ =>
    rcases List.mem_append.mp hu with hu | hu
    · have hnot := ih₂ hu
      rw [h₁.seen_iff, isSeen_setIfInBounds hv] at hnot
      tauto
    · rcases List.mem_cons.mp hu with rfl | hu
      · exact hv
      · have hnot := ih₁ hu
        rw [isSeen_setIfInBounds hv] at hnot
        tauto

theorem nodup (h : Traversal adj seen vs seen' done) : done.Nodup := by
  induction h with
  | nil seen => exact List.nodup_nil
  | skip _ _ ih => exact ih
  | @visit seen seen₁ seen₂ v vs done₁ done₂ hv h₁ h₂ ih₁ ih₂ =>
    have hfirst : ∀ u ∈ v :: done₁, IsSeen seen₁ u := by
      intro u hu
      rw [h₁.seen_iff, isSeen_setIfInBounds hv]
      rcases List.mem_cons.mp hu with rfl | hu
      · exact .inl (.inr rfl)
      · exact .inr hu
    have hv₁ : v ∉ done₁ := by
      intro hmem
      exact h₁.not_seen_of_mem hmem ((isSeen_setIfInBounds hv v).mpr (.inr rfl))
    refine List.nodup_append.mpr ⟨ih₂, List.nodup_cons.mpr ⟨hv₁, ih₁⟩, fun a ha b hb hab => ?_⟩
    exact h₂.not_seen_of_mem ha (hab ▸ hfirst b hb)

/-- Every state of the list is visited. -/
theorem list_seen (h : Traversal adj seen vs seen' done) {u : StateId} (hu : u ∈ vs) :
    IsSeen seen' u := by
  induction h with
  | nil seen => exact absurd hu List.not_mem_nil
  | skip hv h ih =>
    rcases List.mem_cons.mp hu with rfl | hu
    · exact (h.seen_iff _).mpr (.inl hv)
    · exact ih hu
  | visit hv h₁ h₂ _ ih₂ =>
    rcases List.mem_cons.mp hu with rfl | hu
    · rw [h₂.seen_iff, h₁.seen_iff, isSeen_setIfInBounds hv]
      exact .inl (.inl (.inr rfl))
    · exact ih₂ hu

/-- The neighbours of a finished state are visited. -/
theorem neighbours_seen (h : Traversal adj seen vs seen' done) {u t : StateId} (hu : u ∈ done)
    (ht : t ∈ neighbours adj u) : IsSeen seen' t := by
  induction h with
  | nil seen => exact absurd hu List.not_mem_nil
  | skip _ _ ih => exact ih hu
  | visit _ h₁ h₂ ih₁ ih₂ =>
    rcases List.mem_append.mp hu with hu | hu
    · exact ih₂ hu
    · rw [h₂.seen_iff]
      rcases List.mem_cons.mp hu with rfl | hu
      · exact .inl (h₁.list_seen ht)
      · exact .inl (ih₁ hu)

/-- One arrow to a state that is not seen. -/
def FreshStep (adj : Array (List StateId)) (seen : Array Bool) (u v : StateId) : Prop :=
  v ∈ neighbours adj u ∧ ¬ IsSeen seen v

theorem FreshStep.mono {seen₁ : Array Bool} (hsub : ∀ u, IsSeen seen u → IsSeen seen₁ u)
    {u v : StateId} (h : FreshStep adj seen₁ u v) : FreshStep adj seen u v :=
  ⟨h.1, fun hs => h.2 (hsub v hs)⟩

/-- A finished state is reached through new states from a new state of the list. -/
theorem reached (h : Traversal adj seen vs seen' done) {u : StateId} (hu : u ∈ done) :
    ∃ v ∈ vs, ¬ IsSeen seen v ∧ Relation.ReflTransGen (FreshStep adj seen) v u := by
  induction h with
  | nil seen => exact absurd hu List.not_mem_nil
  | skip _ _ ih =>
    obtain ⟨v, hv, hpath⟩ := ih hu
    exact ⟨v, List.mem_cons_of_mem _ hv, hpath⟩
  | @visit seen seen₁ seen₂ v vs done₁ done₂ hv h₁ h₂ ih₁ ih₂ =>
    have hset : ∀ u, IsSeen seen u → IsSeen (seen.setIfInBounds v true) u :=
      fun u hs => (isSeen_setIfInBounds hv u).mpr (.inl hs)
    have hset₁ : ∀ u, IsSeen seen u → IsSeen seen₁ u :=
      fun u hs => (h₁.seen_iff u).mpr (.inl (hset u hs))
    rcases List.mem_append.mp hu with hu | hu
    · obtain ⟨w, hw, hnew, hpath⟩ := ih₂ hu
      exact ⟨w, List.mem_cons_of_mem _ hw, fun hs => hnew (hset₁ w hs),
        Relation.ReflTransGen.mono (fun _ _ => FreshStep.mono hset₁) _ _ hpath⟩
    · refine ⟨v, List.mem_cons_self, hv, ?_⟩
      rcases List.mem_cons.mp hu with rfl | hu
      · exact .refl
      · obtain ⟨w, hw, hnew, hpath⟩ := ih₁ hu
        exact .head ⟨hw, fun hs => hnew (hset w hs)⟩
          (Relation.ReflTransGen.mono (fun _ _ => FreshStep.mono hset) _ _ hpath)

/-! ### The order of finishing -/

/-- Behind every state stand first states that it leads to, and then states without an arrow to any of
these. -/
def Ordered (adj : Array (List StateId)) (finished : List StateId) : Prop :=
  ∀ before x behind, finished = before ++ x :: behind →
    ∃ below older, behind = below ++ older ∧
      (∀ d ∈ below, Relation.ReflTransGen (fun u v => v ∈ neighbours adj u) x d) ∧
      ∀ b ∈ older, ∀ t ∈ neighbours adj b, t ≠ x ∧ t ∉ below

theorem Ordered.cons {finished below older : List StateId} {x : StateId}
    (h : Ordered adj finished) (hsplit : finished = below ++ older)
    (hbelow : ∀ d ∈ below, Relation.ReflTransGen (fun u v => v ∈ neighbours adj u) x d)
    (holder : ∀ b ∈ older, ∀ t ∈ neighbours adj b, t ≠ x ∧ t ∉ below) :
    Ordered adj (x :: finished) := by
  intro before y behind heq
  cases before with
  | nil =>
    obtain ⟨rfl, rfl⟩ := List.cons.inj heq
    exact ⟨below, older, hsplit, hbelow, holder⟩
  | cons z before =>
    obtain ⟨-, heq⟩ := List.cons.inj heq
    exact h before y behind heq

/-- A traversal keeps the order: when a state is discovered, the states finished before have arrows to
visited states only, and what is finished until the state itself is finished can be reached from it. -/
theorem ordered (h : Traversal adj seen vs seen' done) {finished : List StateId}
    (hordered : Ordered adj finished)
    (hclosed : ∀ b ∈ finished, ∀ t ∈ neighbours adj b, IsSeen seen t) :
    Ordered adj (done ++ finished) := by
  induction h generalizing finished with
  | nil seen => exact hordered
  | skip _ _ ih => exact ih hordered hclosed
  | @visit seen seen₁ seen₂ v vs done₁ done₂ hv h₁ h₂ ih₁ ih₂ =>
    have hset : ∀ u, IsSeen seen u → IsSeen (seen.setIfInBounds v true) u :=
      fun u hs => (isSeen_setIfInBounds hv u).mpr (.inl hs)
    have hsub := ih₁ hordered fun b hb t ht => hset t (hclosed b hb t ht)
    have hv₁ : Ordered adj (v :: (done₁ ++ finished)) := by
      refine hsub.cons rfl (fun d hd => ?_) fun b hb t ht => ?_
      · obtain ⟨w, hw, -, hpath⟩ := h₁.reached hd
        exact .head hw (Relation.ReflTransGen.mono (fun _ _ hstep => hstep.1) _ _ hpath)
      · have hseen := hclosed b hb t ht
        exact ⟨fun heq => hv (heq ▸ hseen), fun hmem => h₁.not_seen_of_mem hmem (hset t hseen)⟩
    rw [List.append_assoc, List.cons_append]
    refine ih₂ hv₁ fun b hb t ht => ?_
    rcases List.mem_cons.mp hb with rfl | hb
    · exact h₁.list_seen ht
    · rcases List.mem_append.mp hb with hb | hb
      · exact h₁.neighbours_seen hb ht
      · exact (h₁.seen_iff t).mpr (.inl (hset t (hclosed b hb t ht)))

end Traversal

/-! ### Carrying out the tasks -/

theorem lt_of_not_isSeen {seen : Array Bool} {u : StateId} (h : ¬ IsSeen seen u) : u < seen.size := by
  by_contra hge
  exact h (by simp [IsSeen, Array.getD_eq_getD_getElem?, Array.getElem?_eq_none (Nat.le_of_not_lt hge)])

/-- The number of states that are not seen. -/
def unseenCount (seen : Array Bool) : Nat :=
  ((Finset.range seen.size).filter fun u => ¬ IsSeen seen u).card

theorem unseenCount_lt {seen seen' : Array Bool} {v : StateId} (hsize : seen'.size = seen.size)
    (hsub : ∀ u, IsSeen seen u → IsSeen seen' u) (hv : ¬ IsSeen seen v) (hv' : IsSeen seen' v) :
    unseenCount seen' < unseenCount seen := by
  refine Finset.card_lt_card (Finset.ssubset_iff_of_subset ?_ |>.mpr ⟨v, ?_, ?_⟩)
  · intro u hu
    rw [Finset.mem_filter, hsize] at hu
    exact Finset.mem_filter.mpr ⟨hu.1, fun hs => hu.2 (hsub u hs)⟩
  · exact Finset.mem_filter.mpr ⟨Finset.mem_range.mpr (lt_of_not_isSeen hv), hv⟩
  · intro hmem
    exact (Finset.mem_filter.mp hmem).2 hv'

theorem Traversal.size_eq {adj : Array (List StateId)} {seen seen' : Array Bool}
    {vs done : List StateId} (h : Traversal adj seen vs seen' done) : seen'.size = seen.size := by
  induction h with
  | nil seen => rfl
  | skip _ _ ih => exact ih
  | visit _ _ _ ih₁ ih₂ => rw [ih₂, ih₁, Array.size_setIfInBounds]

/-- Every list of states can be visited. Visiting a new state leaves fewer new states. -/
theorem exists_traversal (adj : Array (List StateId)) (seen : Array Bool) (vs : List StateId) :
    ∃ seen' done, Traversal adj seen vs seen' done := by
  generalize hm : unseenCount seen = m
  induction m using Nat.strong_induction_on generalizing seen vs with
  | _ m ih =>
    induction vs with
    | nil => exact ⟨seen, [], .nil seen⟩
    | cons v vs ihvs =>
      by_cases hv : IsSeen seen v
      · obtain ⟨seen', done, h⟩ := ihvs
        exact ⟨seen', done, .skip hv h⟩
      · have hset : ∀ u, IsSeen seen u → IsSeen (seen.setIfInBounds v true) u :=
          fun u hs => (isSeen_setIfInBounds hv u).mpr (.inl hs)
        have hvset := (isSeen_setIfInBounds hv v).mpr (.inr rfl)
        obtain ⟨seen₁, done₁, h₁⟩ := ih _ (hm ▸ unseenCount_lt (Array.size_setIfInBounds) hset hv hvset)
          (seen.setIfInBounds v true) (neighbours adj v) rfl
        have hset₁ : ∀ u, IsSeen seen u → IsSeen seen₁ u :=
          fun u hs => (h₁.seen_iff u).mpr (.inl (hset u hs))
        have hsize₁ : seen₁.size = seen.size := by rw [h₁.size_eq, Array.size_setIfInBounds]
        obtain ⟨seen₂, done₂, h₂⟩ := ih _
          (hm ▸ unseenCount_lt hsize₁ hset₁ hv ((h₁.seen_iff v).mpr (.inl hvset))) seen₁ vs rfl
        exact ⟨seen₂, done₂ ++ v :: done₁, .visit hv h₁ h₂⟩

namespace Search

/-- The number of tasks that visiting a list takes: one for each of its states, and for each finished
state one for the state and one for each neighbour. -/
def cost (adj : Array (List StateId)) (vs done : List StateId) : Nat :=
  vs.length + (done.map fun d => (neighbours adj d).length + 1).sum

theorem run_nil (adj : Array (List StateId)) (fuel : Nat) (s : Search) : run adj fuel [] s = s := by
  cases fuel <;> rfl

/-- The tasks of a traversal leave the tasks below them and what was finished before alone. -/
theorem run_traversal {adj : Array (List StateId)} {seen seen' : Array Bool} {vs done : List StateId}
    (h : Traversal adj seen vs seen' done) (fuel : Nat) (rest : List SearchTask)
    (finished : List StateId) :
    run adj (cost adj vs done + fuel) (vs.map .visit ++ rest) ⟨seen, finished⟩ =
      run adj fuel rest ⟨seen', done ++ finished⟩ := by
  induction h generalizing fuel rest finished with
  | nil seen => simp [cost]
  | @skip seen seen' v vs done hv h ih =>
    have hcost : cost adj (v :: vs) done + fuel = (cost adj vs done + fuel) + 1 := by
      simp only [cost, List.length_cons]
      omega
    rw [hcost, List.map_cons, List.cons_append, run]
    rw [IsSeen] at hv
    rw [if_pos hv, ih]
  | @visit seen seen₁ seen₂ v vs done₁ done₂ hv h₁ h₂ ih₁ ih₂ =>
    have hcost : cost adj (v :: vs) (done₂ ++ v :: done₁) + fuel =
        (cost adj (neighbours adj v) done₁ + ((cost adj vs done₂ + fuel) + 1)) + 1 := by
      simp only [cost, List.length_cons, List.map_append, List.map_cons, List.sum_append, List.sum_cons]
      omega
    rw [hcost, List.map_cons, List.cons_append, run]
    rw [IsSeen] at hv
    rw [if_neg hv]
    change run adj _ ((neighbours adj v).map .visit ++ .finish v :: (vs.map .visit ++ rest)) _ = _
    rw [ih₁, run, ih₂, List.append_assoc, List.cons_append]

theorem sum_map_length_eq (adj : Array (List StateId)) :
    ((List.range adj.size).map fun u => (neighbours adj u).length).sum =
      adj.foldl (fun n ids => n + ids.length) 0 := by
  have hmap : (List.range adj.size).map (fun u => (neighbours adj u).length) =
      adj.toList.map List.length := by
    refine List.ext_getElem (by simp) fun i hi _ => ?_
    have hlt : i < adj.size := by simpa using hi
    simp [neighbours, Array.getD_eq_getD_getElem?, hlt]
  have hfold : ∀ (l : List (List StateId)) (n : Nat),
      l.foldl (fun n ids => n + ids.length) n = n + (l.map List.length).sum := by
    intro l
    induction l with
    | nil => simp
    | cons ids l ih =>
      intro n
      rw [List.foldl_cons, ih, List.map_cons, List.sum_cons]
      omega
  rw [hmap, ← Array.foldl_toList, hfold, Nat.zero_add]

/-- The fuel of a search suffices. -/
theorem cost_le_fuelFor {adj : Array (List StateId)} {seen seen' : Array Bool}
    {vs done : List StateId} (h : Traversal adj seen vs seen' done) (hsize : seen.size = adj.size) :
    cost adj vs done ≤ fuelFor adj vs.length := by
  have hsub : done ⊆ List.range adj.size := by
    intro u hu
    rw [List.mem_range, ← hsize]
    exact lt_of_not_isSeen (h.not_seen_of_mem hu)
  have hsum : (done.map fun d => (neighbours adj d).length + 1).sum ≤
      ((List.range adj.size).map fun d => (neighbours adj d).length + 1).sum := by
    obtain ⟨l, hperm, hsublist⟩ := List.subperm_of_subset h.nodup hsub
    rw [← (hperm.map _).sum_eq]
    exact (hsublist.map _).sum_le_sum fun _ _ => Nat.zero_le _
  have htotal : ((List.range adj.size).map fun d => (neighbours adj d).length + 1).sum =
      adj.foldl (fun n ids => n + ids.length) 0 + adj.size := by
    rw [← sum_map_length_eq, List.sum_map_add]
    simp
  rw [cost, fuelFor]
  omega

/-- A search with the fuel computed for it visits a list of states. -/
theorem run_visits {adj : Array (List StateId)} {seen : Array Bool} (hsize : seen.size = adj.size)
    (vs finished : List StateId) :
    ∃ seen' done, Traversal adj seen vs seen' done ∧
      run adj (fuelFor adj vs.length) (vs.map .visit) ⟨seen, finished⟩ = ⟨seen', done ++ finished⟩ := by
  obtain ⟨seen', done, h⟩ := exists_traversal adj seen vs
  refine ⟨seen', done, h, ?_⟩
  obtain ⟨fuel, hfuel⟩ := Nat.exists_eq_add_of_le (cost_le_fuelFor h hsize)
  have hrun := run_traversal h fuel [] finished
  rwa [List.append_nil, ← hfuel, run_nil] at hrun

end Search

end StackDepth
