import Mathlib
import StackDepth.Proofs.Graph.Search

/-!
# One search for all components

The textbook algorithm numbers the states in the order of discovery and keeps the ones whose component is
not complete on a stack. The low link of a state is the least number on the stack that was met below it. A
state that meets nothing older than itself is the root of its component, and all that is on the stack above
it is the rest of the component.

The invariant is said once for a list of states, `Tarjan.Walked`: what is pushed and stays leads to what
was on the stack before, and the low link bounds all arrows into the stack from below and is itself met.
Neither gray states nor trees are needed for it.

* `Tarjan.Walked.trans`, `Tarjan.Walked.lower`: lists are put together from single states;
* `Tarjan.Visit.root`, `Tarjan.Visit.inner`: the two ways in which a state is finished;
* `Tarjan.foldl_consider`: along a traversal of the same states;
* `Tarjan.search_visits`, `Tarjan.search_spec`: the components of a whole graph, and their order.
-/

namespace StackDepth

/-- What the algorithm keeps. -/
structure Tarjan where
  /-- The number of every state that has been discovered. -/
  index : StateId → Option Nat := fun _ => none
  /-- The number of the next state. -/
  next : Nat := 0
  /-- The discovered states whose component is not complete, the latest first. -/
  stack : List StateId := []
  /-- The complete components, the latest first. -/
  found : List (List StateId) := []

namespace Tarjan

/-- Discovers a state. -/
def discover (t : Tarjan) (v : StateId) : Tarjan :=
  { t with index := Function.update t.index v (some t.next), next := t.next + 1, stack := v :: t.stack }

/-- Takes states from a stack until `v` is taken: these states, and the rest. -/
def popUntil (v : StateId) : List StateId → List StateId × List StateId
  | [] => ([], [])
  | w :: rest => if w = v then ([w], rest) else (w :: (popUntil v rest).1, (popUntil v rest).2)

/-- Completes the component of a root. -/
def complete (t : Tarjan) (v : StateId) : Tarjan :=
  { t with stack := (popUntil v t.stack).2, found := (popUntil v t.stack).1 :: t.found }

/-- Considers a successor: a new one is searched from, and one on the stack is met. -/
def consider (connect : StateId → Tarjan → Tarjan × Nat) (p : Tarjan × Nat) (w : StateId) : Tarjan × Nat :=
  match p.1.index w with
  | none => ((connect w p.1).1, min p.2 (connect w p.1).2)
  | some i => if w ∈ p.1.stack then (p.1, min p.2 i) else p

/-- Searches from a new state, and gives its low link. `fuel` bounds the depth; every new state on the way
takes one unit, so that it never runs out if there are at least as many units as states. -/
def connect (adj : Array (List StateId)) : Nat → StateId → Tarjan → Tarjan × Nat
  | 0, _, t => (t, t.next)
  | fuel + 1, v, t =>
      let p := (neighbours adj v).foldl (consider (connect adj fuel)) (t.discover v, t.next)
      if p.2 = t.next then (p.1.complete v, p.2) else p

/-- Searches from every state that is still new. -/
def search (adj : Array (List StateId)) (vs : List StateId) (t : Tarjan) : Tarjan :=
  vs.foldl (fun t v => if t.index v = none then (connect adj adj.size v t).1 else t) t

/-! ### What is known on the way -/

/-- There is a path of arrows. -/
abbrev Leads (adj : Array (List StateId)) (u v : StateId) : Prop :=
  Relation.ReflTransGen (fun u v => v ∈ neighbours adj u) u v

/-- A state of the first component was finished after all states of the second one. -/
def Later (finished c d : List StateId) : Prop :=
  ∃ before x behind, finished = before ++ x :: behind ∧ x ∈ c ∧ d ⊆ behind

/-- The states that lead to each other with any of them. -/
structure IsComponent (adj : Array (List StateId)) (c : List StateId) : Prop where
  /-- There is at least one state. -/
  ne_nil : c ≠ []
  /-- No state is listed twice. -/
  nodup : c.Nodup
  /-- With a state come all those that it leads to and that lead back. -/
  mem_iff : ∀ u ∈ c, ∀ w, w ∈ c ↔ Leads adj u w ∧ Leads adj w u

/-- What holds of a search in progress that has finished some states. -/
structure Sound (adj : Array (List StateId)) (t : Tarjan) (finished : List StateId) : Prop where
  /-- Only states of the graph are numbered, with numbers that were given. -/
  index_lt : ∀ u i, t.index u = some i → u < adj.size ∧ i < t.next
  /-- A numbered state is on the stack or in a component. -/
  placed : ∀ u, t.index u ≠ none ↔ u ∈ t.stack ∨ ∃ c ∈ t.found, u ∈ c
  /-- No state is on the stack twice. -/
  nodup : t.stack.Nodup
  /-- No state of a component is on the stack. -/
  apart : ∀ c ∈ t.found, ∀ u ∈ c, u ∉ t.stack
  /-- What a component leads to is in components. -/
  closed : ∀ c ∈ t.found, ∀ u ∈ c, ∀ w ∈ neighbours adj u, ∃ d ∈ t.found, w ∈ d
  /-- The components are right. -/
  component : ∀ c ∈ t.found, IsComponent adj c
  /-- The states of a component are finished. -/
  listed : ∀ c ∈ t.found, c ⊆ finished
  /-- Every component has a state that was finished after all states of those behind it. -/
  order : t.found.Pairwise (Later finished)

/-- The same states have been discovered. -/
def Agrees (adj : Array (List StateId)) (seen : Array Bool) (t : Tarjan) : Prop :=
  seen.size = adj.size ∧ ∀ u < adj.size, IsSeen seen u ↔ t.index u ≠ none

/-- What becomes of a search that considers the states of a list: `pushed` is new on the stack. -/
structure Walked (adj : Array (List StateId)) (t : Tarjan) (low : Nat) (vs : List StateId) (t' : Tarjan)
    (low' : Nat) (pushed : List StateId) : Prop where
  /-- The stack grows. -/
  stack_eq : t'.stack = pushed ++ t.stack
  /-- Numbers are kept. -/
  index_eq : ∀ u, t.index u ≠ none → t'.index u = t.index u
  /-- New numbers are higher. -/
  index_new : ∀ u i, t.index u = none → t'.index u = some i → t.next ≤ i
  /-- Numbers are given in increasing order. -/
  next_le : t.next ≤ t'.next
  /-- What is pushed was not numbered before. -/
  pushed_new : ∀ x ∈ pushed, t.index x = none
  /-- What stays on the stack leads to what was there before. -/
  leads : ∀ x ∈ pushed, ∃ z ∈ t.stack, Leads adj x z
  /-- The low number does not rise. -/
  low_le : low' ≤ low
  /-- It is the number of a state that is reached from the list. -/
  low_met : low' = low ∨ ∃ u ∈ vs, ∃ z ∈ t.stack, Leads adj u z ∧ t.index z = some low'
  /-- It is not above the number of any state that is met. -/
  low_le_index : ∀ z ∈ t.stack, ∀ i, t.index z = some i →
    (z ∈ vs ∨ ∃ x ∈ pushed, z ∈ neighbours adj x) → low' ≤ i

variable {adj : Array (List StateId)} {t t₁ t₂ t' : Tarjan} {low low' low₁ low₂ fuel : Nat} {u v w : StateId}
  {vs ws pushed pushed₁ pushed₂ finished done : List StateId} {seen seen' : Array Bool}

/-! ### Lists of states -/

theorem Walked.refl (adj : Array (List StateId)) (t : Tarjan) (low : Nat) :
    Walked adj t low [] t low [] where
  stack_eq := rfl
  index_eq _ _ := rfl
  index_new u i hnone hsome := by
    rw [hnone] at hsome
    exact absurd hsome (by simp)
  next_le := le_refl _
  pushed_new x hx := absurd hx List.not_mem_nil
  leads x hx := absurd hx List.not_mem_nil
  low_le := le_refl _
  low_met := .inl rfl
  low_le_index z _ i _ h := by simp at h

/-- What is met below a new state is met below the state that considers it. -/
theorem Walked.lower (h : Walked adj t t.next vs t' low' pushed) (hlow : low < t.next) :
    Walked adj t low vs t' (min low low') pushed where
  stack_eq := h.stack_eq
  index_eq := h.index_eq
  index_new := h.index_new
  next_le := h.next_le
  pushed_new := h.pushed_new
  leads := h.leads
  low_le := min_le_left _ _
  low_met := by
    by_cases hle : low ≤ low'
    · exact .inl (min_eq_left hle)
    · rw [min_eq_right (Nat.le_of_not_le hle)]
      exact h.low_met.imp (fun heq => by omega) id
  low_le_index z hz i hi hmet := (min_le_right _ _).trans (h.low_le_index z hz i hi hmet)

theorem Sound.index_ne_none (h : Sound adj t finished) (hu : u ∈ t.stack) : t.index u ≠ none :=
  (h.placed u).mpr (.inl hu)

theorem Walked.trans (h₁ : Walked adj t low [v] t₁ low₁ pushed₁) (hlow : low < t.next)
    (hsound : Sound adj t finished) (h₂ : Walked adj t₁ low₁ vs t₂ low₂ pushed₂) :
    Walked adj t low (v :: vs) t₂ low₂ (pushed₂ ++ pushed₁) where
  stack_eq := by rw [h₂.stack_eq, h₁.stack_eq, List.append_assoc]
  index_eq u hu := by
    have hfirst := h₁.index_eq u hu
    rw [h₂.index_eq u (by rwa [hfirst]), hfirst]
  index_new u i hnone hsome := by
    cases hfirst : t₁.index u with
    | none => exact h₁.next_le.trans (h₂.index_new u i hfirst hsome)
    | some j =>
      rw [h₂.index_eq u (by simp [hfirst])] at hsome
      exact h₁.index_new u i hnone hsome
  next_le := h₁.next_le.trans h₂.next_le
  pushed_new x hx := by
    rcases List.mem_append.mp hx with hx | hx
    · by_contra hsome
      have hnone := h₂.pushed_new x hx
      rw [h₁.index_eq x hsome] at hnone
      exact hsome hnone
    · exact h₁.pushed_new x hx
  leads x hx := by
    rcases List.mem_append.mp hx with hx | hx
    · obtain ⟨z, hz, hpath⟩ := h₂.leads x hx
      rw [h₁.stack_eq] at hz
      rcases List.mem_append.mp hz with hz | hz
      · obtain ⟨y, hy, hpath'⟩ := h₁.leads z hz
        exact ⟨y, hy, hpath.trans hpath'⟩
      · exact ⟨z, hz, hpath⟩
    · exact h₁.leads x hx
  low_le := h₂.low_le.trans h₁.low_le
  low_met := by
    rcases h₂.low_met with heq | ⟨u, hu, z, hz, hpath, hindex⟩
    · rw [heq]
      refine h₁.low_met.imp_right fun ⟨u, hu, hz⟩ => ?_
      exact ⟨u, List.mem_cons.mpr (.inl (List.mem_singleton.mp hu)), hz⟩
    · rw [h₁.stack_eq] at hz
      rcases List.mem_append.mp hz with hz | hz
      · -- a state that was pushed in between has a larger number
        have hle := h₁.index_new z low₂ (h₁.pushed_new z hz) hindex
        have hlow₁ := h₁.low_le
        have hlow₂ := h₂.low_le
        omega
      · rw [h₁.index_eq z (hsound.index_ne_none hz)] at hindex
        exact .inr ⟨u, List.mem_cons_of_mem v hu, z, hz, hpath, hindex⟩
  low_le_index z hz i hi hmet := by
    have hindex : t₁.index z = some i := by rw [h₁.index_eq z (hsound.index_ne_none hz), hi]
    have hz₁ : z ∈ t₁.stack := by
      rw [h₁.stack_eq]
      exact List.mem_append_right _ hz
    rcases hmet with hmem | ⟨x, hx, harrow⟩
    · rcases List.mem_cons.mp hmem with rfl | hmem
      · exact h₂.low_le.trans (h₁.low_le_index z hz i hi (.inl (List.mem_singleton_self z)))
      · exact h₂.low_le_index z hz₁ i hindex (.inl hmem)
    · rcases List.mem_append.mp hx with hx | hx
      · exact h₂.low_le_index z hz₁ i hindex (.inr ⟨x, hx, harrow⟩)
      · exact h₂.low_le.trans (h₁.low_le_index z hz i hi (.inr ⟨x, hx, harrow⟩))

/-- A state that has been discovered before is met if it is on the stack. -/
theorem Walked.known (connect : StateId → Tarjan → Tarjan × Nat) (hv : t.index v ≠ none) (low : Nat) :
    ∃ low', consider connect (t, low) v = (t, low') ∧ Walked adj t low [v] t low' [] := by
  obtain ⟨i, hi⟩ := Option.ne_none_iff_exists'.mp hv
  have hrefl := Walked.refl adj t low
  by_cases hstack : v ∈ t.stack
  · refine ⟨min low i, by rw [consider]; simp only [hi, if_pos hstack], { hrefl with
      low_le := min_le_left _ _, low_met := ?_, low_le_index := ?_ }⟩
    · by_cases hle : low ≤ i
      · exact .inl (min_eq_left hle)
      · rw [min_eq_right (Nat.le_of_not_le hle)]
        exact .inr ⟨v, List.mem_singleton_self v, v, hstack, .refl, hi⟩
    · intro z _ j hj hmet
      rcases hmet with hmem | ⟨x, hx, -⟩
      · rw [List.mem_singleton.mp hmem, hi] at hj
        rw [← Option.some.inj hj]
        exact min_le_right _ _
      · exact absurd hx List.not_mem_nil
  · refine ⟨low, by rw [consider]; simp only [hi, if_neg hstack], { hrefl with
      low_met := .inl rfl, low_le_index := ?_ }⟩
    intro z hz j _ hmet
    rcases hmet with hmem | ⟨x, hx, -⟩
    · exact absurd (List.mem_singleton.mp hmem ▸ hz) hstack
    · exact absurd hx List.not_mem_nil

/-! ### A single state -/

theorem popUntil_append (hv : v ∉ pushed) (rest : List StateId) :
    popUntil v (pushed ++ v :: rest) = (pushed ++ [v], rest) := by
  induction pushed with
  | nil => simp [popUntil]
  | cons w pushed ih =>
    have hne : w ≠ v := fun heq => hv (heq ▸ List.mem_cons_self)
    rw [List.cons_append, popUntil, if_neg hne, ih fun hmem => hv (List.mem_cons_of_mem w hmem)]
    rfl

theorem Later.append {c d : List StateId} (h : Later finished c d) (done : List StateId) :
    Later (done ++ finished) c d := by
  obtain ⟨before, x, behind, heq, hx, hsub⟩ := h
  exact ⟨done ++ before, x, behind, by rw [heq, List.append_assoc], hx, hsub⟩

theorem Sound.append (h : Sound adj t finished) (done : List StateId) : Sound adj t (done ++ finished) :=
  { h with
    listed := fun c hc _ hu => List.mem_append_right done (h.listed c hc hu)
    order := h.order.imp fun hlater => hlater.append done }

theorem index_discover (t : Tarjan) (v u : StateId) :
    (t.discover v).index u = if u = v then some t.next else t.index u :=
  Function.update_apply t.index v (some t.next) u

theorem Sound.discover (h : Sound adj t finished) (hlt : v < adj.size) (hnew : t.index v = none) :
    Sound adj (t.discover v) finished where
  index_lt u i hi := by
    have hnext : (t.discover v).next = t.next + 1 := rfl
    rw [index_discover] at hi
    split at hi
    · next heq =>
      have hi' := Option.some.inj hi
      exact ⟨heq ▸ hlt, by omega⟩
    · obtain ⟨hu, hi'⟩ := h.index_lt u i hi
      exact ⟨hu, by omega⟩
  placed u := by
    have hstack : (t.discover v).stack = v :: t.stack := rfl
    have hfound : (t.discover v).found = t.found := rfl
    rw [index_discover, hstack, hfound, List.mem_cons, or_assoc, ← h.placed u]
    by_cases heq : u = v
    · simp [heq]
    · simp [heq]
  nodup := List.nodup_cons.mpr ⟨fun hmem => h.index_ne_none hmem hnew, h.nodup⟩
  apart c hc u hu hmem := by
    rcases List.mem_cons.mp hmem with heq | hmem
    · exact (h.placed u).mpr (.inr ⟨c, hc, hu⟩) (heq ▸ hnew)
    · exact h.apart c hc u hu hmem
  closed := h.closed
  component := h.component
  listed := h.listed
  order := h.order

/-- Complete components are left by no path. -/
theorem Sound.closed_of_leads (h : Sound adj t finished) {c : List StateId} (hc : c ∈ t.found) (hu : u ∈ c)
    (hpath : Leads adj u w) : ∃ d ∈ t.found, w ∈ d := by
  induction hpath with
  | refl => exact ⟨c, hc, hu⟩
  | tail _ harrow ih =>
    obtain ⟨d, hd, hmem⟩ := ih
    exact h.closed d hd _ hmem _ harrow

/-- A new state, when all its successors have been considered. -/
structure Visit (adj : Array (List StateId)) (t : Tarjan) (finished : List StateId) (v : StateId)
    (t₁ : Tarjan) (low : Nat) (pushed done : List StateId) : Prop where
  /-- The search was sound when the state was discovered. -/
  before : Sound adj t finished
  /-- The state had no number. -/
  new : t.index v = none
  /-- Its successors have been considered. -/
  walked : Walked adj (t.discover v) t.next (neighbours adj v) t₁ low pushed
  /-- The search is sound afterwards. -/
  after : Sound adj t₁ (done ++ finished)
  /-- The states that are still on the stack are finished. -/
  pushed_done : pushed ⊆ done
  /-- The state leads to each of them. -/
  below : ∀ x ∈ pushed, Leads adj v x
  /-- All their successors are numbered. -/
  met : ∀ x ∈ pushed ++ [v], ∀ w ∈ neighbours adj x, t₁.index w ≠ none

theorem Visit.stack_eq (h : Visit adj t finished v t₁ low pushed done) :
    t₁.stack = (pushed ++ [v]) ++ t.stack := by
  rw [h.walked.stack_eq, List.append_assoc]
  rfl

theorem Visit.index_eq (h : Visit adj t finished v t₁ low pushed done) (hu : t.index u ≠ none) :
    (t.discover v).index u = t.index u := by
  rw [index_discover, if_neg]
  intro heq
  rw [heq] at hu
  exact hu h.new

theorem Visit.mem_stack (h : Visit adj t finished v t₁ low pushed done) (hw : w ∈ t.stack) :
    w ∈ t₁.stack ∧ w ∉ pushed ++ [v] := by
  have hnodup := h.after.nodup
  rw [h.stack_eq] at hnodup ⊢
  exact ⟨List.mem_append_right _ hw, fun hmem => (List.nodup_append.mp hnodup).2.2 w hmem w hw rfl⟩

/-- What a visit that finds no way back leaves, apart from the stack and the components. -/
theorem Visit.walked_single (h : Visit adj t finished v t₁ low pushed done) :
    (∀ u, t.index u ≠ none → t₁.index u = t.index u) ∧
      (∀ u i, t.index u = none → t₁.index u = some i → t.next ≤ i) ∧ t.next ≤ t₁.next := by
  have hnext : t.next + 1 ≤ t₁.next := h.walked.next_le
  refine ⟨fun u hu => ?_, fun u i hnone hsome => ?_, by omega⟩
  · have heq := h.index_eq hu
    rw [h.walked.index_eq u (by rwa [heq]), heq]
  · by_cases huv : u = v
    · have hindex : (t.discover v).index u = some t.next := by rw [index_discover, if_pos huv]
      rw [h.walked.index_eq u (by simp [hindex]), hindex] at hsome
      exact (Option.some.inj hsome).le
    · have hindex : (t.discover v).index u = none := by rw [index_discover, if_neg huv, hnone]
      have hle : t.next + 1 ≤ i := h.walked.index_new u i hindex hsome
      omega

theorem Visit.pushed_new (h : Visit adj t finished v t₁ low pushed done) {x : StateId}
    (hx : x ∈ pushed ++ [v]) : t.index x = none := by
  rcases List.mem_append.mp hx with hx | hx
  · have hnone := h.walked.pushed_new x hx
    rw [index_discover] at hnone
    split at hnone
    · exact absurd hnone (by simp)
    · exact hnone
  · rw [List.mem_singleton.mp hx]
    exact h.new

/-- The low link bounds the arrows into what was on the stack before. -/
theorem Visit.low_le_index (h : Visit adj t finished v t₁ low pushed done) {x : StateId}
    (hx : x ∈ pushed ++ [v]) (hw : w ∈ t.stack) (harrow : w ∈ neighbours adj x) {i : Nat}
    (hi : t.index w = some i) : low ≤ i := by
  have hindex : (t.discover v).index w = some i := by
    rw [h.index_eq (h.before.index_ne_none hw), hi]
  refine h.walked.low_le_index w (List.mem_cons_of_mem v hw) i hindex ?_
  rcases List.mem_append.mp hx with hx | hx
  · exact .inr ⟨x, hx, harrow⟩
  · rw [List.mem_singleton.mp hx] at harrow
    exact .inl harrow

/-- A state that meets an older one stays on the stack, and leads to an older one. -/
theorem Visit.inner (h : Visit adj t finished v t₁ low pushed done) (hlow : low ≠ t.next) :
    Walked adj t t.next [v] t₁ low (pushed ++ [v]) := by
  obtain ⟨hindex, hnew, hnext⟩ := h.walked_single
  -- the state that was met is older than `v`
  obtain ⟨z, hz, hpath, hzlow⟩ : ∃ z ∈ t.stack, Leads adj v z ∧ t.index z = some low := by
    obtain ⟨u, hu, z, hz, hpath, hzlow⟩ := h.walked.low_met.resolve_left hlow
    rw [index_discover] at hzlow
    by_cases hzv : z = v
    · rw [if_pos hzv] at hzlow
      exact absurd (Option.some.inj hzlow).symm hlow
    · rw [if_neg hzv] at hzlow
      exact ⟨z, (List.mem_cons.mp hz).resolve_left hzv, .head hu hpath, hzlow⟩
  refine ⟨h.stack_eq, hindex, hnew, hnext, fun x hx => h.pushed_new hx, fun x hx => ?_, h.walked.low_le,
    .inr ⟨v, List.mem_singleton_self v, z, hz, hpath, hzlow⟩, fun w hw i hi hmet => ?_⟩
  · rcases List.mem_append.mp hx with hx | hx
    · obtain ⟨y, hy, hxy⟩ := h.walked.leads x hx
      rcases List.mem_cons.mp hy with rfl | hy
      · exact ⟨z, hz, hxy.trans hpath⟩
      · exact ⟨y, hy, hxy⟩
    · rw [List.mem_singleton.mp hx]
      exact ⟨z, hz, hpath⟩
  · rcases hmet with hmem | ⟨x, hx, harrow⟩
    · rw [List.mem_singleton.mp hmem] at hw
      exact absurd h.new (h.before.index_ne_none hw)
    · exact h.low_le_index hx hw harrow hi

/-- Without a way back, arrows from what was pushed stay there or lead to complete components. -/
theorem Visit.closed_of_root (h : Visit adj t finished v t₁ low pushed done) (hlow : low = t.next)
    {x : StateId} (hx : x ∈ pushed ++ [v]) (hpath : Leads adj x w) :
    w ∈ pushed ++ [v] ∨ ∃ c ∈ t₁.found, w ∈ c := by
  induction hpath with
  | refl => exact .inl hx
  | @tail y w _ harrow ih =>
    rcases ih with hy | ⟨c, hc, hy⟩
    · rcases (h.after.placed w).mp (h.met y hy w harrow) with hmem | hfound
      · rw [h.stack_eq] at hmem
        rcases List.mem_append.mp hmem with hmem | hold
        · exact .inl hmem
        · obtain ⟨i, hi⟩ := Option.ne_none_iff_exists'.mp (h.before.index_ne_none hold)
          have hle := h.low_le_index hy hold harrow hi
          have hlt := (h.before.index_lt w i hi).2
          omega
      · exact .inr hfound
    · exact .inr (h.after.closed c hc y hy w harrow)

/-- The root of a component leads to what was pushed above it and back. -/
theorem Visit.leads_root (h : Visit adj t finished v t₁ low pushed done) (hlow : low = t.next)
    {x : StateId} (hx : x ∈ pushed ++ [v]) : Leads adj v x ∧ Leads adj x v := by
  rcases List.mem_append.mp hx with hmem | hmem
  · refine ⟨h.below x hmem, ?_⟩
    obtain ⟨z, hz, hpath⟩ := h.walked.leads x hmem
    rcases List.mem_cons.mp hz with rfl | hz
    · exact hpath
    · obtain ⟨hz₁, hnot⟩ := h.mem_stack hz
      rcases h.closed_of_root hlow hx hpath with hmem | ⟨c, hc, hzc⟩
      · exact absurd hmem hnot
      · exact absurd hz₁ (h.after.apart c hc z hzc)
  · rw [List.mem_singleton.mp hmem]
    exact ⟨.refl, .refl⟩

theorem Visit.isComponent (h : Visit adj t finished v t₁ low pushed done) (hlow : low = t.next) :
    IsComponent adj (pushed ++ [v]) where
  ne_nil := by simp
  nodup := by
    have hnodup := h.after.nodup
    rw [h.stack_eq] at hnodup
    exact hnodup.of_append_left
  mem_iff u hu w := by
    obtain ⟨hvu, huv⟩ := h.leads_root hlow hu
    constructor
    · intro hw
      obtain ⟨hvw, hwv⟩ := h.leads_root hlow hw
      exact ⟨huv.trans hvw, hwv.trans hvu⟩
    · intro ⟨huw, hwu⟩
      refine (h.closed_of_root hlow hu huw).resolve_right fun ⟨c, hc, hw⟩ => ?_
      obtain ⟨d, hd, hud⟩ := h.after.closed_of_leads hc hw hwu
      refine h.after.apart d hd u hud ?_
      rw [h.stack_eq]
      exact List.mem_append_left _ hu

theorem Visit.complete_eq (h : Visit adj t finished v t₁ low pushed done) :
    t₁.complete v = { t₁ with stack := t.stack, found := (pushed ++ [v]) :: t₁.found } := by
  have hv : v ∉ pushed := by
    intro hmem
    have hnone := h.walked.pushed_new v hmem
    rw [index_discover, if_pos rfl] at hnone
    exact absurd hnone (by simp)
  have hpop : popUntil v t₁.stack = (pushed ++ [v], t.stack) := by
    rw [h.stack_eq, List.append_assoc]
    exact popUntil_append hv t.stack
  rw [complete, hpop]

/-- A root completes its component, and nothing of it stays on the stack. -/
theorem Visit.root (h : Visit adj t finished v t₁ low pushed done) (hlow : low = t.next) :
    Walked adj t t.next [v] (t₁.complete v) low [] ∧
      Sound adj (t₁.complete v) (v :: (done ++ finished)) := by
  obtain ⟨hindex, hnew, hnext⟩ := h.walked_single
  have hafter := h.after.append [v]
  rw [h.complete_eq]
  constructor
  · refine ⟨rfl, hindex, hnew, hnext, fun x hx => absurd hx List.not_mem_nil,
      fun x hx => absurd hx List.not_mem_nil, hlow.le, .inl hlow, fun z hz i _ hmet => ?_⟩
    rcases hmet with hmem | ⟨x, hx, -⟩
    · rw [List.mem_singleton.mp hmem] at hz
      exact absurd h.new (h.before.index_ne_none hz)
    · exact absurd hx List.not_mem_nil
  · refine ⟨h.after.index_lt, fun u => ?_, h.before.nodup, fun c hc u hu hmem => ?_,
      fun c hc u hu w harrow => ?_, fun c hc => ?_, fun c hc => ?_, List.pairwise_cons.mpr ⟨fun c hc => ?_, hafter.order⟩⟩
    · rw [h.after.placed, h.stack_eq, List.mem_append]
      simp only [List.mem_cons, exists_eq_or_imp]
      tauto
    · obtain ⟨hmem₁, hnot⟩ := h.mem_stack hmem
      rcases List.mem_cons.mp hc with rfl | hc
      · exact hnot hu
      · exact h.after.apart c hc u hu hmem₁
    · rcases List.mem_cons.mp hc with rfl | hc
      · rcases h.closed_of_root hlow hu (.single harrow) with hw | ⟨d, hd, hw⟩
        · exact ⟨_, List.mem_cons_self, hw⟩
        · exact ⟨d, List.mem_cons_of_mem _ hd, hw⟩
      · obtain ⟨d, hd, hw⟩ := h.after.closed c hc u hu w harrow
        exact ⟨d, List.mem_cons_of_mem _ hd, hw⟩
    · rcases List.mem_cons.mp hc with rfl | hc
      · exact h.isComponent hlow
      · exact h.after.component c hc
    · rcases List.mem_cons.mp hc with rfl | hc
      · intro x hx
        rcases List.mem_append.mp hx with hx | hx
        · exact List.mem_cons_of_mem v (List.mem_append_left finished (h.pushed_done hx))
        · rw [List.mem_singleton.mp hx]
          exact List.mem_cons_self
      · exact hafter.listed c hc
    · exact ⟨[], v, done ++ finished, rfl, List.mem_append_right _ (List.mem_singleton_self v),
        h.after.listed c hc⟩

/-! ### Along a traversal -/

/-- What is known after the states of a list have been considered, of which `done` have been finished. -/
structure Outcome (adj : Array (List StateId)) (t : Tarjan) (finished : List StateId) (low : Nat)
    (vs : List StateId) (seen' : Array Bool) (done : List StateId) (p : Tarjan × Nat) : Prop where
  /-- A state is seen if and only if it is numbered. -/
  agrees : Agrees adj seen' p.1
  /-- The search is sound. -/
  sound : Sound adj p.1 (done ++ finished)
  /-- The states of the list have been considered. -/
  walked : ∃ pushed, Walked adj t low vs p.1 p.2 pushed

theorem Agrees.discover (h : Agrees adj seen t) (hv : ¬ IsSeen seen v) :
    Agrees adj (seen.setIfInBounds v true) (t.discover v) := by
  refine ⟨by rw [Array.size_setIfInBounds, h.1], fun u hu => ?_⟩
  rw [isSeen_setIfInBounds hv, h.2 u hu, index_discover]
  by_cases huv : u = v
  · simp [huv]
  · simp [huv]

theorem Agrees.index_eq_none (h : Agrees adj seen t) (hlt : v < adj.size) (hv : ¬ IsSeen seen v) :
    t.index v = none := by
  by_contra hsome
  exact hv ((h.2 v hlt).mpr hsome)

/-- A visit leaves fewer new states. -/
theorem unseenCount_visit_lt (hv : ¬ IsSeen seen v) :
    unseenCount (seen.setIfInBounds v true) < unseenCount seen :=
  unseenCount_lt Array.size_setIfInBounds (fun u hs => (isSeen_setIfInBounds hv u).mpr (.inl hs)) hv
    ((isSeen_setIfInBounds hv v).mpr (.inr rfl))

/-- What is pushed below a new state has been finished. -/
theorem Outcome.pushed_done {p : Tarjan × Nat} (hagrees : Agrees adj seen t) (hv : ¬ IsSeen seen v)
    (h : Traversal adj (seen.setIfInBounds v true) (neighbours adj v) seen' done)
    (hrun : Outcome adj (t.discover v) finished t.next (neighbours adj v) seen' done p)
    (hwalked : Walked adj (t.discover v) t.next (neighbours adj v) p.1 p.2 pushed) : pushed ⊆ done := by
  intro x hx
  have hstack : x ∈ p.1.stack := by
    rw [hwalked.stack_eq]
    exact List.mem_append_left _ hx
  have hindex := hrun.sound.index_ne_none hstack
  obtain ⟨i, hi⟩ := Option.ne_none_iff_exists'.mp hindex
  have hlt := (hrun.sound.index_lt x i hi).1
  have hseen := (hrun.agrees.2 x hlt).mpr hindex
  rw [h.seen_iff, (hagrees.discover hv).2 x hlt] at hseen
  exact hseen.resolve_left fun hsome => hsome (hwalked.pushed_new x hx)

/-- A new state is searched from, if its successors are. -/
theorem connect_spec (hadj : ∀ u w, w ∈ neighbours adj u → w < adj.size) (hagrees : Agrees adj seen t)
    (hsound : Sound adj t finished) (hlt : v < adj.size) (hv : ¬ IsSeen seen v)
    (h : Traversal adj (seen.setIfInBounds v true) (neighbours adj v) seen' done)
    (hrun : Outcome adj (t.discover v) finished t.next (neighbours adj v) seen' done
      ((neighbours adj v).foldl (consider (connect adj fuel)) (t.discover v, t.next))) :
    Outcome adj t finished t.next [v] seen' (v :: done) (connect adj (fuel + 1) v t) := by
  rw [connect]
  generalize (neighbours adj v).foldl (consider (connect adj fuel)) (t.discover v, t.next) = p at hrun ⊢
  obtain ⟨pushed, hwalked⟩ := hrun.walked
  have hdone := hrun.pushed_done hagrees hv h hwalked
  have hvisit : Visit adj t finished v p.1 p.2 pushed done := by
    refine ⟨hsound, hagrees.index_eq_none hlt hv, hwalked, hrun.sound, hdone, fun x hx => ?_,
      fun x hx w hw => ?_⟩
    · obtain ⟨w, hw, -, hpath⟩ := h.reached (hdone hx)
      exact .head hw (Relation.ReflTransGen.mono (fun _ _ hstep => hstep.1) _ _ hpath)
    · refine (hrun.agrees.2 w (hadj x w hw)).mp ?_
      rcases List.mem_append.mp hx with hx | hx
      · exact h.neighbours_seen (hdone hx) hw
      · rw [List.mem_singleton.mp hx] at hw
        exact h.list_seen hw
  by_cases hlow : p.2 = t.next
  · rw [if_pos hlow]
    obtain ⟨hwalk, hs⟩ := hvisit.root hlow
    exact ⟨hrun.agrees, hs, [], hwalk⟩
  · rw [if_neg hlow]
    exact ⟨hrun.agrees, hrun.sound.append [v], pushed ++ [v], hvisit.inner hlow⟩

/-- The states of a list are considered as a traversal visits them. -/
theorem foldl_consider (hadj : ∀ u w, w ∈ neighbours adj u → w < adj.size)
    (h : Traversal adj seen vs seen' done) (hvs : ∀ v ∈ vs, v < adj.size) (hfuel : unseenCount seen ≤ fuel)
    (hagrees : Agrees adj seen t) (hsound : Sound adj t finished) (hlow : low < t.next) :
    Outcome adj t finished low vs seen' done (vs.foldl (consider (connect adj fuel)) (t, low)) := by
  induction h generalizing fuel t low finished with
  | nil seen => exact ⟨hagrees, hsound, [], Walked.refl adj t low⟩
  | @skip seen seen' v vs done hv h ih =>
    have hindex := (hagrees.2 v (hvs v List.mem_cons_self)).mp hv
    obtain ⟨low', heq, hwalk⟩ := Walked.known (connect adj fuel) hindex low
    obtain ⟨hagrees', hsound', pushed, hrest⟩ :=
      ih (fun u hu => hvs u (List.mem_cons_of_mem v hu)) hfuel hagrees hsound (hwalk.low_le.trans_lt hlow)
    rw [List.foldl_cons, heq]
    exact ⟨hagrees', hsound', pushed ++ [], hwalk.trans hlow hsound hrest⟩
  | @visit seen seen₁ seen₂ v vs done₁ done₂ hv h₁ h₂ ih₁ ih₂ =>
    have hlt := hvs v List.mem_cons_self
    have hnew := hagrees.index_eq_none hlt hv
    -- every new state on the way costs one unit of fuel
    have hfewer := unseenCount_visit_lt hv
    have hfewer₁ : unseenCount seen₁ < unseenCount seen := by
      refine unseenCount_lt (h₁.size_eq.trans Array.size_setIfInBounds) (fun u hs => ?_) hv ?_
      · exact (h₁.seen_iff u).mpr (.inl ((isSeen_setIfInBounds hv u).mpr (.inl hs)))
      · exact (h₁.seen_iff v).mpr (.inl ((isSeen_setIfInBounds hv v).mpr (.inr rfl)))
    cases fuel with
    | zero => omega
    | succ fuel =>
      have hrun := ih₁ (fun w hw => hadj v w hw) (Nat.lt_succ_iff.mp (hfewer.trans_le hfuel))
        (hagrees.discover hv) (hsound.discover hlt hnew) (Nat.lt_succ_self t.next)
      obtain ⟨hagrees₁, hsound₁, pushed₁, hwalk₁⟩ := connect_spec hadj hagrees hsound hlt hv h₁ hrun
      have heq : consider (connect adj (fuel + 1)) (t, low) v =
          ((connect adj (fuel + 1) v t).1, min low (connect adj (fuel + 1) v t).2) := by
        rw [consider]
        simp only [hnew]
      have hfirst := hwalk₁.lower hlow
      have hlow₁ := (hfirst.low_le.trans_lt hlow).trans_le hfirst.next_le
      obtain ⟨hagrees₂, hsound₂, pushed₂, hwalk₂⟩ :=
        ih₂ (fun u hu => hvs u (List.mem_cons_of_mem v hu)) (hfewer₁.le.trans hfuel) hagrees₁ hsound₁ hlow₁
      rw [List.foldl_cons, heq]
      refine ⟨hagrees₂, ?_, pushed₂ ++ pushed₁, hfirst.trans hlow hsound hwalk₂⟩
      rw [List.append_assoc]
      exact hsound₂

/-! ### The whole search -/

/-- A search from one new state visits what a traversal visits. -/
theorem connect_visits (hadj : ∀ u w, w ∈ neighbours adj u → w < adj.size) (hagrees : Agrees adj seen t)
    (hsound : Sound adj t finished) (hlt : v < adj.size) (hv : ¬ IsSeen seen v)
    (h : Traversal adj (seen.setIfInBounds v true) (neighbours adj v) seen' done)
    (hfuel : unseenCount seen ≤ fuel) :
    Outcome adj t finished t.next [v] seen' (v :: done) (connect adj fuel v t) := by
  have hfewer := unseenCount_visit_lt hv
  have hnew := hagrees.index_eq_none hlt hv
  cases fuel with
  | zero => omega
  | succ fuel =>
    have hrun := foldl_consider hadj h (fun w hw => hadj v w hw) (Nat.lt_succ_iff.mp (hfewer.trans_le hfuel))
      (hagrees.discover hv) (hsound.discover hlt hnew) (Nat.lt_succ_self t.next)
    exact connect_spec hadj hagrees hsound hlt hv h hrun

/-- Between two states of the outer loop the stack is empty. -/
theorem search_visits (hadj : ∀ u w, w ∈ neighbours adj u → w < adj.size)
    (h : Traversal adj seen vs seen' done) (hvs : ∀ v ∈ vs, v < adj.size) (hagrees : Agrees adj seen t)
    (hsound : Sound adj t finished) (hstack : t.stack = []) :
    Agrees adj seen' (search adj vs t) ∧ Sound adj (search adj vs t) (done ++ finished) ∧
      (search adj vs t).stack = [] := by
  induction h generalizing t finished with
  | nil seen => exact ⟨hagrees, hsound, hstack⟩
  | @skip seen seen' v vs done hv h ih =>
    have hindex := (hagrees.2 v (hvs v List.mem_cons_self)).mp hv
    have hrest := ih (fun u hu => hvs u (List.mem_cons_of_mem v hu)) hagrees hsound hstack
    rwa [search, List.foldl_cons, if_neg hindex, ← search]
  | @visit seen seen₁ seen₂ v vs done₁ done₂ hv h₁ h₂ _ ih₂ =>
    have hlt := hvs v List.mem_cons_self
    have hnew := hagrees.index_eq_none hlt hv
    have hfuel : unseenCount seen ≤ adj.size := by
      rw [← hagrees.1]
      exact (Finset.card_filter_le _ _).trans (Finset.card_range _).le
    obtain ⟨hagrees₁, hsound₁, pushed, hwalk⟩ := connect_visits hadj hagrees hsound hlt hv h₁ hfuel
    -- what stays on the stack leads to an older state, and there is none
    have hpushed : pushed = [] := by
      refine List.eq_nil_iff_forall_not_mem.mpr fun x hx => ?_
      obtain ⟨z, hz, -⟩ := hwalk.leads x hx
      rw [hstack] at hz
      exact absurd hz List.not_mem_nil
    have hstack₁ : (connect adj adj.size v t).1.stack = [] := by
      rw [hwalk.stack_eq, hpushed, hstack]
      rfl
    have hrest := ih₂ (fun u hu => hvs u (List.mem_cons_of_mem v hu)) hagrees₁ hsound₁ hstack₁
    rw [search, List.foldl_cons, if_pos hnew, ← search, List.append_assoc]
    exact hrest

/-- Nothing has been discovered. -/
theorem Sound.init (adj : Array (List StateId)) : Sound adj {} [] := by
  refine ⟨fun u i hi => absurd hi (by simp), fun u => by simp, List.nodup_nil, ?_, ?_, ?_, ?_,
    List.Pairwise.nil⟩
  all_goals
    intro c hc
    exact absurd hc List.not_mem_nil

/-- The search finds all components, and each of them before those that are finished later. -/
theorem search_spec (hadj : ∀ u w, w ∈ neighbours adj u → w < adj.size)
    (h : Traversal adj (Array.replicate adj.size false) (List.range adj.size) seen' done) :
    (∀ c ∈ (search adj (List.range adj.size) {}).found, IsComponent adj c) ∧
      (∀ u, u < adj.size ↔ ∃ c ∈ (search adj (List.range adj.size) {}).found, u ∈ c) ∧
      (search adj (List.range adj.size) {}).found.Pairwise (Later done) := by
  have hagrees : Agrees adj (Array.replicate adj.size false) {} := by
    refine ⟨Array.size_replicate, fun u hu => ?_⟩
    simp [IsSeen, Array.getD_eq_getD_getElem?, hu]
  obtain ⟨hagrees', hsound, hstack⟩ :=
    search_visits hadj h (fun v hv => List.mem_range.mp hv) hagrees (Sound.init adj) rfl
  rw [List.append_nil] at hsound
  refine ⟨hsound.component, fun u => ⟨fun hu => ?_, fun hfound => ?_⟩, hsound.order⟩
  · have hindex := (hagrees'.2 u hu).mp (h.list_seen (List.mem_range.mpr hu))
    have hplaced := (hsound.placed u).mp hindex
    rw [hstack] at hplaced
    exact hplaced.resolve_left List.not_mem_nil
  · obtain ⟨i, hi⟩ := Option.ne_none_iff_exists'.mp ((hsound.placed u).mpr (.inr hfound))
    exact (hsound.index_lt u i hi).1

end Tarjan

end StackDepth
