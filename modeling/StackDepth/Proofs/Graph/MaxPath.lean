import Mathlib
import StackDepth.Proofs.Graph.Potential

/-!
# The heaviest path is the heaviest

The components are processed successors first. When a component has been processed, the value of each of
its states is the greatest weight of a walk from it: no walk is heavier, since the value of a state is at
least the weight of any edge plus the value of its target, and some walk attains it. If all components
can be processed, the weights of all walks from a state are bounded from both sides. Otherwise there is
a closed walk whose weight is not zero.

Main statements:

* `Graph.bestExit_spec`, `Graph.exitOf_spec`: the best way to leave a component;
* `Graph.sweepComponent_spec`, `Graph.sweep_spec`: what processing components keeps;
* `Graph.maxPath_spec`: what the two answers say about walks from the start state.
-/

namespace StackDepth

namespace Graph

variable {g : Graph} {comps : List (List StateId)}

/-! ### Places in the list of components -/

theorem Layered.cover (h : g.Layered comps) {i : Nat} {c : List StateId} (hc : comps[i]? = some c) :
    (c ≠ [] ∧ c.Nodup) ∧ (∀ u ∈ c, ∀ v ∈ c, Relation.ReflTransGen g.Arrow u v) ∧
      ∀ u ∈ c, u < g.size := by
  induction comps generalizing i with
  | nil => simp at hc
  | cons d rest ih =>
    obtain ⟨hshape, hstrong, hlt, -, hrest⟩ := h
    cases i with
    | zero =>
      obtain rfl : d = c := by simpa using hc
      exact ⟨hshape, hstrong, fun u hu => (hlt u hu).1⟩
    | succ i => exact ih hrest (by simpa using hc)

/-- A state has one place. -/
theorem Layered.place_unique (h : g.Layered comps) {i j : Nat} {c d : List StateId} {u : StateId}
    (hc : comps[i]? = some c) (hd : comps[j]? = some d) (huc : u ∈ c) (hud : u ∈ d) : i = j := by
  induction comps generalizing i j with
  | nil => simp at hc
  | cons e rest ih =>
    obtain ⟨-, -, hfresh, -, hrest⟩ := h
    cases i with
    | zero =>
      obtain rfl : e = c := by simpa using hc
      cases j with
      | zero => rfl
      | succ j => exact absurd hud ((hfresh u huc).2 d (List.mem_of_getElem? (by simpa using hd)))
    | succ i =>
      cases j with
      | zero =>
        obtain rfl : e = d := by simpa using hd
        exact absurd huc ((hfresh u hud).2 c (List.mem_of_getElem? (by simpa using hc)))
      | succ j => exact congrArg Nat.succ (ih hrest (by simpa using hc) (by simpa using hd))

/-- An edge never leads down the list. -/
theorem Layered.place_le (h : g.Layered comps) {j : Nat} {d : List StateId} {u v : StateId}
    (hd : comps[j]? = some d) (hv : v ∈ d) (harrow : g.Arrow u v) :
    ∃ i c, comps[i]? = some c ∧ u ∈ c ∧ j ≤ i := by
  induction comps generalizing j with
  | nil => simp at hd
  | cons e rest ih =>
    obtain ⟨-, -, -, hpred, hrest⟩ := h
    cases j with
    | zero =>
      obtain rfl : e = d := by simpa using hd
      rcases hpred v hv u harrow with hu | ⟨c, hc, hu⟩
      · exact ⟨0, e, rfl, hu, le_rfl⟩
      · obtain ⟨i, hi⟩ := List.mem_iff_getElem?.mp hc
        exact ⟨i + 1, c, by simpa using hi, hu, Nat.zero_le _⟩
    | succ j =>
      obtain ⟨i, c, hc, hu, hle⟩ := ih hrest (by simpa using hd)
      exact ⟨i + 1, c, by simpa using hc, hu, Nat.succ_le_succ hle⟩

/-- The state is in one of the first `i` components. -/
def Before (comps : List (List StateId)) (i : Nat) (u : StateId) : Prop :=
  ∃ j < i, ∃ c, comps[j]? = some c ∧ u ∈ c

theorem before_succ {i : Nat} {c : List StateId} (hc : comps[i]? = some c) (u : StateId) :
    Before comps (i + 1) u ↔ Before comps i u ∨ u ∈ c := by
  constructor
  · rintro ⟨j, hj, d, hd, hu⟩
    rcases Nat.lt_succ_iff_lt_or_eq.mp hj with hj | rfl
    · exact .inl ⟨j, hj, d, hd, hu⟩
    · obtain rfl : c = d := Option.some.inj (hc.symm.trans hd)
      exact .inr hu
  · rintro (⟨j, hj, d, hd, hu⟩ | hu)
    · exact ⟨j, Nat.lt_succ_of_lt hj, d, hd, hu⟩
    · exact ⟨i, Nat.lt_succ_self i, c, hc, hu⟩

/-- Each component in its turn. -/
theorem Layered.component (h : g.Layered comps) (hg : g.WellFormed)
    (hall : ∀ u < g.size, ∃ c ∈ comps, u ∈ c) {i : Nat} {c : List StateId}
    (hc : comps[i]? = some c) : Component g (Before comps i) c := by
  obtain ⟨⟨hne, hnodup⟩, hstrong, hlt⟩ := h.cover hc
  -- the target of an edge is not further down than its source
  have htarget : ∀ {j : Nat} {d : List StateId} {u v : StateId}, comps[j]? = some d → u ∈ d →
      g.Arrow u v → ∃ k e, comps[k]? = some e ∧ v ∈ e ∧ k ≤ j := by
    intro j d u v hd hu harrow
    obtain ⟨e, he, hv⟩ := hall v (hg.target_lt _ harrow.choose_spec)
    obtain ⟨k, hk⟩ := List.mem_iff_getElem?.mp he
    obtain ⟨l, d', hd', hu', hle⟩ := h.place_le hk hv harrow
    rw [h.place_unique hd' hd hu' hu] at hle
    exact ⟨k, e, hk, hv, hle⟩
  refine ⟨hne, hnodup, hlt, hstrong, ?_, ?_, ?_⟩
  · rintro u hu ⟨j, hj, d, hd, hud⟩
    exact absurd (h.place_unique hc hd hu hud) hj.ne'
  · intro u hu v harrow
    obtain ⟨k, e, hk, hv, hle⟩ := htarget hc hu harrow
    rcases hle.lt_or_eq with hlt | rfl
    · exact .inr ⟨k, hlt, e, hk, hv⟩
    · obtain rfl : c = e := Option.some.inj (hc.symm.trans hk)
      exact .inl hv
  · rintro u v ⟨j, hj, d, hd, hu⟩ harrow
    obtain ⟨k, e, hk, hv, hle⟩ := htarget hd hu harrow
    exact ⟨k, hle.trans_lt hj, e, hk, hv⟩

theorem getElem?_foldl_set (c : List StateId) (i : Nat) (acc : Array Nat) (u : StateId) :
    (c.foldl (fun acc id => acc.setIfInBounds id i) acc)[u]? =
      if u ∈ c ∧ u < acc.size then some i else acc[u]? := by
  induction c generalizing acc with
  | nil => simp
  | cons v c ih =>
    rw [List.foldl_cons, ih, Array.size_setIfInBounds, Array.getElem?_setIfInBounds]
    by_cases huv : v = u
    · subst huv
      by_cases hlt : v < acc.size
      · simp [hlt]
      · simp [hlt]
    · simp [huv, Ne.symm huv]

theorem size_foldl_set (c : List StateId) (i : Nat) (acc : Array Nat) :
    (c.foldl (fun acc id => acc.setIfInBounds id i) acc).size = acc.size := by
  induction c generalizing acc with
  | nil => rfl
  | cons v c ih => rw [List.foldl_cons, ih, Array.size_setIfInBounds]

/-- The table with the places of components numbered from `k` on filled in. -/
def fillPlaces (comps : List (List StateId)) (k : Nat) (acc : Array Nat) : Array Nat :=
  (comps.zipIdx k).foldl (fun acc (c, i) => c.foldl (fun acc id => acc.setIfInBounds id i) acc) acc

theorem fillPlaces_cons (c : List StateId) (rest : List (List StateId)) (k : Nat) (acc : Array Nat) :
    fillPlaces (c :: rest) k acc =
      fillPlaces rest (k + 1) (c.foldl (fun acc id => acc.setIfInBounds id k) acc) := rfl

theorem getElem?_fillPlaces_of_not_mem {ds : List (List StateId)} {u : StateId}
    (h : ∀ d ∈ ds, u ∉ d) (k : Nat) (acc : Array Nat) : (fillPlaces ds k acc)[u]? = acc[u]? := by
  induction ds generalizing k acc with
  | nil => rfl
  | cons c rest ih =>
    have hnot : ¬ (u ∈ c ∧ u < acc.size) := fun hu => h c List.mem_cons_self hu.1
    rw [fillPlaces_cons, ih (fun d hd => h d (List.mem_cons_of_mem _ hd)), getElem?_foldl_set,
      if_neg hnot]

theorem getElem?_fillPlaces {ds : List (List StateId)} (h : g.Layered ds) {j : Nat}
    {d : List StateId} (hd : ds[j]? = some d) {u : StateId} (hu : u ∈ d) (k : Nat) {acc : Array Nat}
    (hlt : u < acc.size) : (fillPlaces ds k acc)[u]? = some (k + j) := by
  induction ds generalizing j k acc with
  | nil => simp at hd
  | cons c rest ih =>
    obtain ⟨-, -, hfresh, -, hrest⟩ := h
    rw [fillPlaces_cons]
    cases j with
    | zero =>
      obtain rfl : c = d := by simpa using hd
      rw [getElem?_fillPlaces_of_not_mem (hfresh u hu).2, getElem?_foldl_set, if_pos ⟨hu, hlt⟩,
        Nat.add_zero]
    | succ j =>
      rw [ih hrest (by simpa using hd) (k + 1) (by rwa [size_foldl_set])]
      congr 1
      omega

/-- The table of components gives the place of every state. -/
theorem getElem?_componentOf (h : g.Layered comps) {i : Nat} {c : List StateId}
    (hc : comps[i]? = some c) {u : StateId} (hu : u ∈ c) : (g.componentOf comps)[u]? = some i := by
  have hlt : u < (Array.replicate g.size 0).size := by
    rw [Array.size_replicate]
    exact (h.cover hc).2.2 u hu
  have hplace := getElem?_fillPlaces h hc hu 0 hlt
  rwa [Nat.zero_add] at hplace

theorem size_componentOf (g : Graph) (comps : List (List StateId)) :
    (g.componentOf comps).size = g.size := by
  have hfill : ∀ (ds : List (List StateId)) (k : Nat) (acc : Array Nat),
      (fillPlaces ds k acc).size = acc.size := by
    intro ds
    induction ds with
    | nil => exact fun _ _ => rfl
    | cons c rest ih =>
      intro k acc
      rw [fillPlaces_cons, ih, size_foldl_set]
  have hsize := hfill comps 0 (Array.replicate g.size 0)
  rwa [Array.size_replicate] at hsize

/-- Being inside a component, read off the table. -/
theorem inside_iff (h : g.Layered comps) (hall : ∀ u < g.size, ∃ c ∈ comps, u ∈ c) {i : Nat}
    {c : List StateId} (hc : comps[i]? = some c) (t : StateId) :
    ((g.componentOf comps)[t]? == some i) = true ↔ t ∈ c := by
  rw [beq_iff_eq]
  refine ⟨fun hplace => ?_, fun ht => getElem?_componentOf h hc ht⟩
  have hlt : t < g.size := by
    rw [← size_componentOf g comps]
    exact (Array.getElem?_eq_some_iff.mp hplace).1
  obtain ⟨d, hd, htd⟩ := hall t hlt
  obtain ⟨j, hj⟩ := List.mem_iff_getElem?.mp hd
  obtain rfl := Option.some.inj (hplace.symm.trans (getElem?_componentOf h hj htd))
  obtain rfl : c = d := Option.some.inj (hc.symm.trans hj)
  exact htd

/-! ### Leaving a component -/

/-- Folding a choice of the better one: the score never falls, is at least that of every candidate that
counts, and is that of the beginning or of such a candidate. -/
theorem foldl_best {α β : Type} {f : β → α → β} {score : β → Int} {counts : α → Prop} {weight : α → Int}
    (hf : ∀ b a, score b ≤ score (f b a) ∧ (counts a → weight a ≤ score (f b a)) ∧
      (score (f b a) = score b ∨ counts a ∧ score (f b a) = weight a)) (as : List α) (b : β) :
    score b ≤ score (as.foldl f b) ∧ (∀ a ∈ as, counts a → weight a ≤ score (as.foldl f b)) ∧
      (score (as.foldl f b) = score b ∨
        ∃ a ∈ as, counts a ∧ score (as.foldl f b) = weight a) := by
  induction as generalizing b with
  | nil => exact ⟨le_rfl, fun a ha => absurd ha List.not_mem_nil, .inl rfl⟩
  | cons a as ih =>
    obtain ⟨hle, hbound, horigin⟩ := ih (f b a)
    obtain ⟨hle', hbound', horigin'⟩ := hf b a
    rw [List.foldl_cons]
    refine ⟨hle'.trans hle, fun c hc hcounts => ?_, ?_⟩
    · rcases List.mem_cons.mp hc with rfl | hc
      · exact (hbound' hcounts).trans hle
      · exact hbound c hc hcounts
    · rcases horigin with heq | ⟨c, hc, hcounts, heq⟩
      · rcases horigin' with heq' | ⟨hcounts, heq'⟩
        · exact .inl (heq.trans heq')
        · exact .inr ⟨a, List.mem_cons_self, hcounts, heq.trans heq'⟩
      · exact .inr ⟨c, List.mem_cons_of_mem _ hc, hcounts, heq⟩

/-- The weight of leaving by an edge: of the edge and of the best path from its target. -/
def exitWeight (g : Graph) (value : Array Int) (e : EdgeId) : Int :=
  (g.edge e).weight + value.getD (g.edge e).target 0

/-- The better of what was best before and an edge that leaves the component. -/
def takeExit (g : Graph) (inside : StateId → Bool) (value : Array Int) (best : Int × Option EdgeId)
    (e : EdgeId) : Int × Option EdgeId :=
  if inside (g.edge e).target then best
  else if best.1 < g.exitWeight value e then (g.exitWeight value e, some e) else best

theorem bestExit_eq (g : Graph) (inside : StateId → Bool) (value : Array Int) (x : StateId) :
    g.bestExit inside value x = (g.outgoing x).foldl (g.takeExit inside value) (0, none) := rfl

theorem takeExit_spec (g : Graph) (inside : StateId → Bool) (value : Array Int)
    (best : Int × Option EdgeId) (e : EdgeId) :
    best.1 ≤ (g.takeExit inside value best e).1 ∧
      (inside (g.edge e).target = false → g.exitWeight value e ≤ (g.takeExit inside value best e).1) ∧
      ((g.takeExit inside value best e).1 = best.1 ∨ inside (g.edge e).target = false ∧
        (g.takeExit inside value best e).1 = g.exitWeight value e) := by
  unfold takeExit
  split
  · next hin => exact ⟨le_rfl, fun hout => absurd (hin.symm.trans hout) (by simp), .inl rfl⟩
  · next hout =>
    have hout' : inside (g.edge e).target = false := by simpa using hout
    split
    · next hlt => exact ⟨hlt.le, fun _ => le_rfl, .inr ⟨hout', rfl⟩⟩
    · next hge => exact ⟨le_rfl, fun _ => Int.not_lt.mp hge, .inl rfl⟩

/-- The best exit from a state is at least zero and at least as good as every edge that leaves the
component, and it is zero or such an edge. -/
theorem bestExit_spec (hg : g.WellFormed) {c : List StateId} {inside : StateId → Bool}
    (hinside : ∀ t, inside t = true ↔ t ∈ c) (value : Array Int) (x : StateId) :
    0 ≤ (g.bestExit inside value x).1 ∧
      (∀ a ∈ g.edges, a.source = x → a.target ∉ c →
        a.weight + value.getD a.target 0 ≤ (g.bestExit inside value x).1) ∧
      ((g.bestExit inside value x).1 = 0 ∨ ∃ a ∈ g.edges, a.source = x ∧ a.target ∉ c ∧
        (g.bestExit inside value x).1 = a.weight + value.getD a.target 0) := by
  have hout : ∀ t, inside t = false ↔ t ∉ c := by
    intro t
    rw [← hinside, Bool.not_eq_true]
  obtain ⟨hle, hbound, horigin⟩ :=
    foldl_best (takeExit_spec g inside value) (g.outgoing x) (0, none)
  rw [bestExit_eq]
  refine ⟨hle, fun a ha hsource htarget => ?_, ?_⟩
  · obtain ⟨e, he⟩ := Array.mem_iff_getElem?.mp ha
    have hexit := hbound e ((hg.mem_outgoing x e).mpr ⟨a, he, hsource⟩)
    rw [exitWeight, edge_eq he, hout] at hexit
    exact hexit htarget
  · refine horigin.imp_right ?_
    rintro ⟨e, he, hleaves, heq⟩
    obtain ⟨a, ha, hsource⟩ := (hg.mem_outgoing x e).mp he
    rw [edge_eq ha, hout] at hleaves
    rw [exitWeight, edge_eq ha] at heq
    exact ⟨a, Array.mem_of_getElem? ha, hsource, hleaves, heq⟩

/-- The edge of an exit leaves the component from `x` and weighs what the exit promises; without an edge
nothing is promised. -/
def Promises (g : Graph) (c : List StateId) (value : Array Int) (x : StateId)
    (best : Int × Option EdgeId) : Prop :=
  (best.2 = none → best.1 = 0) ∧ ∀ e, best.2 = some e →
    e ∈ g.outgoing x ∧ (g.edge e).target ∉ c ∧ best.1 = g.exitWeight value e

theorem promises_bestExit {c : List StateId} {inside : StateId → Bool}
    (hinside : ∀ t, inside t = true ↔ t ∈ c) (value : Array Int) (x : StateId) :
    Promises g c value x (g.bestExit inside value x) := by
  have hfold : ∀ (es : List EdgeId) (best : Int × Option EdgeId), (∀ e ∈ es, e ∈ g.outgoing x) →
      Promises g c value x best →
      Promises g c value x (es.foldl (g.takeExit inside value) best) := by
    intro es
    induction es with
    | nil => exact fun best _ hbest => hbest
    | cons e es ih =>
      intro best hes hbest
      refine ih _ (fun f hf => hes f (List.mem_cons_of_mem _ hf)) ?_
      unfold takeExit
      by_cases hin : inside (g.edge e).target = true
      · rwa [if_pos hin]
      · rw [if_neg hin]
        split
        · refine ⟨fun hnone => absurd hnone (by simp), fun f hf => ?_⟩
          obtain rfl : e = f := Option.some.inj hf
          exact ⟨hes e List.mem_cons_self, fun hc => hin ((hinside _).mpr hc), rfl⟩
        · exact hbest
  exact hfold (g.outgoing x) (0, none) (fun e he => he) ⟨fun _ => rfl, fun e he => absurd he (by simp)⟩

theorem better_spec (e f : Exit) :
    e.score ≤ (e.better f).score ∧ (True → f.score ≤ (e.better f).score) ∧
      ((e.better f).score = e.score ∨ True ∧ (e.better f).score = f.score) := by
  unfold Exit.better
  split
  · next hlt => exact ⟨hlt.le, fun _ => le_rfl, .inr ⟨trivial, rfl⟩⟩
  · next hge => exact ⟨le_rfl, fun _ => Int.not_lt.mp hge, .inl rfl⟩

theorem Exit.better_eq (e f : Exit) : e.better f = e ∨ e.better f = f := by
  unfold Exit.better
  split
  · exact .inr rfl
  · exact .inl rfl

/-- The best exit from a list of states is at least as good as that from each of them, and is one of
these. -/
theorem exitOf_spec (g : Graph) (inside : StateId → Bool) (p : Potentials) (value : Array Int)
    {order : List StateId} (hne : order ≠ []) :
    (∀ x ∈ order, p.get x + (g.bestExit inside value x).1 ≤ (g.exitOf inside p value order).score) ∧
      ∃ x ∈ order, g.exitOf inside p value order = g.exitAt inside p value x := by
  cases order with
  | nil => exact absurd rfl hne
  | cons x rest =>
    obtain ⟨hle, hbound, -⟩ :=
      foldl_best (fun e y => better_spec e (g.exitAt inside p value y)) rest (g.exitAt inside p value x)
    refine ⟨fun y hy => ?_, ?_⟩
    · rcases List.mem_cons.mp hy with rfl | hy
      · exact hle
      · exact hbound y hy trivial
    · rw [exitOf]
      clear hle hbound hne
      induction rest generalizing x with
      | nil => exact ⟨x, List.mem_singleton_self x, rfl⟩
      | cons y rest ih =>
        rw [List.foldl_cons]
        rcases Exit.better_eq (g.exitAt inside p value x) (g.exitAt inside p value y) with heq | heq
        · rw [heq]
          obtain ⟨z, hz, hbest⟩ := ih x
          refine ⟨z, ?_, hbest⟩
          rcases List.mem_cons.mp hz with rfl | hz
          · exact List.mem_cons_self
          · exact List.mem_cons_of_mem _ (List.mem_cons_of_mem _ hz)
        · rw [heq]
          obtain ⟨z, hz, hbest⟩ := ih y
          exact ⟨z, List.mem_cons_of_mem _ hz, hbest⟩

/-! ### Processing the components -/

theorem foldl_assign_spec (order : List StateId) (f : StateId → Int) (value : Array Int)
    (u : StateId) :
    (order.foldl (fun value x => value.setIfInBounds x (f x)) value).size = value.size ∧
      (order.foldl (fun value x => value.setIfInBounds x (f x)) value).getD u 0 =
        if u ∈ order ∧ u < value.size then f u else value.getD u 0 := by
  induction order generalizing value with
  | nil => simp
  | cons x order ih =>
    obtain ⟨hsize, hget⟩ := ih (value.setIfInBounds x (f x))
    rw [Array.size_setIfInBounds] at hsize hget
    rw [List.foldl_cons, hget]
    refine ⟨hsize, ?_⟩
    by_cases hxu : x = u
    · subst hxu
      by_cases hlt : x < value.size
      · simp [hlt, Array.getD_eq_getD_getElem?]
      · simp [hlt, Array.getD_eq_getD_getElem?]
    · simp [Array.getD_eq_getD_getElem?, Array.getElem?_setIfInBounds_ne hxu, Ne.symm hxu]

/-- An exit of the component `c` and the values it gives: a path ends at the state of the exit, or leaves
by its edge to an earlier component. -/
structure Leaves (g : Graph) (earlier : StateId → Prop) (c : List StateId) (s : Sweep) (x : Exit) :
    Prop where
  /-- The exit is in the component. -/
  state_mem : x.state ∈ c
  /-- Without an edge the values are those of paths that end at the exit. -/
  stays : x.edge = none → ∀ u ∈ c,
    s.value.getD u 0 = s.potentials.get x.state - s.potentials.get u
  /-- With an edge they are those of paths that go on behind it. -/
  leaves : ∀ e, x.edge = some e → e < g.edges.size ∧ (g.edge e).source = x.state ∧
    earlier (g.edge e).target ∧ ∀ u ∈ c, s.value.getD u 0 =
      s.potentials.get x.state - s.potentials.get u + g.exitWeight s.value e

/-- The exit of a component still gives its values where nothing has changed in it and before it. -/
theorem Leaves.congr {earlier : StateId → Prop} {c : List StateId} {s s' : Sweep} {x : Exit}
    (h : Leaves g earlier c s x) (hget : ∀ u ∈ c, s'.potentials.get u = s.potentials.get u)
    (hvalue : ∀ u, u ∈ c ∨ earlier u → s'.value.getD u 0 = s.value.getD u 0) :
    Leaves g earlier c s' x where
  state_mem := h.state_mem
  stays := fun hnone u hu => by
    rw [hvalue u (.inl hu), hget _ h.state_mem, hget u hu]
    exact h.stays hnone u hu
  leaves := fun e he => by
    obtain ⟨hlt, hsource, htarget, hvalues⟩ := h.leaves e he
    refine ⟨hlt, hsource, htarget, fun u hu => ?_⟩
    rw [exitWeight, hvalue u (.inl hu), hvalue _ (.inr htarget), hget _ h.state_mem, hget u hu]
    exact hvalues u hu

/-- The first `i` components have been processed. -/
structure Swept (g : Graph) (comps : List (List StateId)) (i : Nat) (s : Sweep) : Prop where
  /-- Every node has a potential's place and a value. -/
  sizes : s.potentials.value.size = g.size ∧ s.value.size = g.size
  /-- Every node has a place on the trail. -/
  via_size : s.potentials.via.size = g.size
  /-- The states of these components have potentials. -/
  has_iff : ∀ u < g.size, s.potentials.has u = true ↔ Before comps i u
  /-- The edges inside these components agree with the potentials. -/
  agrees : ∀ j < i, ∀ c, comps[j]? = some c → ∀ u ∈ c, AgreesAt g c s.potentials u
  /-- Staying weighs nothing. -/
  nonneg : ∀ u, Before comps i u → 0 ≤ s.value.getD u 0
  /-- No edge promises more than the value of its source. -/
  edge_le : ∀ a ∈ g.edges, Before comps i a.source →
    a.weight + s.value.getD a.target 0 ≤ s.value.getD a.source 0
  /-- A walk attains the value. -/
  attained : ∀ u, Before comps i u → ∃ t, g.Walk u t (s.value.getD u 0)
  /-- Each of these components has an exit. -/
  exits_size : s.exits.size = i
  /-- The exit gives the values of the component. -/
  exits : ∀ j < i, ∀ c, comps[j]? = some c → Leaves g (Before comps j) c s (s.exits.getD j default)

/-- The states of a component lead to each other inside the component. -/
theorem exists_inner_path {earlier : StateId → Prop} {c : List StateId} (hc : Component g earlier c)
    {inside : StateId → Bool} (hinside : ∀ t, inside t = true ↔ t ∈ c) {u x : StateId} (hu : u ∈ c)
    (hx : x ∈ c) : Relation.ReflTransGen (g.AllowedArrow inside) u x := by
  -- a walk that has left the component cannot come back
  have hpath : ∀ y, Relation.ReflTransGen g.Arrow u y →
      y ∈ c ∧ Relation.ReflTransGen (g.AllowedArrow inside) u y ∨ earlier y := by
    intro y hy
    induction hy with
    | refl => exact .inl ⟨hu, .refl⟩
    | tail _ harrow ih =>
      rcases ih with ⟨hyc, hpath⟩ | hearlier
      · rcases hc.target _ hyc _ harrow with hzc | hearlier
        · exact .inl ⟨hzc, hpath.tail ⟨harrow, (hinside _).mpr hzc⟩⟩
        · exact .inr hearlier
      · exact .inr (hc.closed _ _ hearlier harrow)
  rcases hpath x (hc.strong u hu x hx) with ⟨-, hpath⟩ | hearlier
  · exact hpath
  · exact absurd hearlier (hc.fresh x hx)

/-- A route inside a component weighs the difference of the potentials. -/
theorem weightOf_inner {c : List StateId} {p : Potentials} (hp : ∀ u ∈ c, AgreesAt g c p u)
    {u x : StateId} {es : List EdgeId} (h : g.Route u es x) (hu : u ∈ c)
    (hes : ∀ e ∈ es, (g.edge e).target ∈ c) : g.weightOf es = p.get x - p.get u := by
  refine h.weightOf_eq (P := (· ∈ c)) hu fun e he hlt hsource => ⟨hes e he, ?_⟩
  exact (hp _ hsource _ (edge_mem hlt) rfl (hes e he)).2

/-- A walk inside a component weighs the difference of the potentials. -/
theorem exists_inner_walk (hg : g.WellFormed) {earlier : StateId → Prop} {c : List StateId}
    (hc : Component g earlier c) {p : Potentials} (hp : ∀ u ∈ c, AgreesAt g c p u) {u x : StateId}
    (hu : u ∈ c) (hx : x ∈ c) : g.Walk u x (p.get x - p.get u) := by
  have hinside : ∀ t, decide (t ∈ c) = true ↔ t ∈ c := fun t => decide_eq_true_iff
  obtain ⟨hroute, hes⟩ := shortestPath_spec hg (hc.lt u hu) (exists_inner_path hc hinside hu hx)
  rw [← weightOf_inner hp hroute hu fun e he => (hinside _).mp (hes e he)]
  exact hroute.walk

/-- An edge that breaks the rule shows a closed walk whose weight is not zero. -/
theorem exists_closed_walk {earlier : StateId → Prop} {c : List StateId}
    (hc : Component g earlier c) {root : StateId} (hroot : root ∈ c) {p₀ q : Potentials}
    (hq : Spread g c root p₀ q) {a : Edge} (ha : Breaks g c q a) :
    ∃ w, w ≠ 0 ∧ g.Walk root root w := by
  obtain ⟨back, hback⟩ := exists_walk (hc.strong a.target ha.target.1 root hroot)
  have hdirect := (hq.walk a.target ha.target.1 ha.target.2).append hback
  have hround := ((hq.walk a.source ha.source.1 ha.source.2).tail ha.mem_edges).append hback
  by_cases hzero : q.get a.target + back = 0
  · refine ⟨_, fun hround0 => ha.ne ?_, hround⟩
    rw [Edge.weight]
    omega
  · exact ⟨_, hzero, hdirect⟩

/-! ### Filling in the values of a component -/

/-- The values of the component `c` have been filled in from its best exit `x`. -/
structure Filled (g : Graph) (inside : StateId → Bool) (c : List StateId) (p : Potentials)
    (value value' : Array Int) (x : Exit) : Prop where
  /-- No value is added or lost. -/
  size_eq : value'.size = value.size
  /-- The exit is that of a state of the component. -/
  state_mem : x.state ∈ c
  /-- It is the best one of that state. -/
  exit_eq : x = g.exitAt inside p value x.state
  /-- No other state of the component has a better one. -/
  best : ∀ u ∈ c, p.get u + (g.bestExit inside value u).1 ≤ x.score
  /-- The values of the component are those of paths to the exit and on. -/
  inner : ∀ u ∈ c, value'.getD u 0 = x.score - p.get u
  /-- All other values are kept. -/
  outer : ∀ u, u ∉ c → value'.getD u 0 = value.getD u 0

section Filled

variable {earlier : StateId → Prop} {c : List StateId} {inside : StateId → Bool} {p : Potentials}
  {value value' : Array Int} {x : Exit}

theorem filled_exitOf (hc : Component g earlier c) (inside : StateId → Bool) (p : Potentials)
    (hsize : value.size = g.size) {order : List StateId} (hmem : ∀ t, t ∈ order ↔ t ∈ c) :
    Filled g inside c p value
      (order.foldl (fun values x => values.setIfInBounds x
        ((g.exitOf inside p value order).score - p.get x)) value)
      (g.exitOf inside p value order) := by
  have hne : order ≠ [] := by
    obtain ⟨u, rest, hcons⟩ := List.exists_cons_of_ne_nil hc.nonempty
    exact List.ne_nil_of_mem ((hmem u).mpr (hcons ▸ List.mem_cons_self))
  obtain ⟨hbest, u, hu, hexit⟩ := exitOf_spec g inside p value hne
  have hstate : (g.exitOf inside p value order).state = u := congrArg Exit.state hexit
  have hassign := foldl_assign_spec order
    (fun x => (g.exitOf inside p value order).score - p.get x) value
  exact
    { size_eq := (hassign 0).1
      state_mem := hstate ▸ (hmem u).mp hu
      exit_eq := hstate.symm ▸ hexit
      best := fun v hv => hbest v ((hmem v).mpr hv)
      inner := fun v hv => by rw [(hassign v).2, if_pos ⟨(hmem v).mpr hv, hsize ▸ hc.lt v hv⟩]
      outer := fun v hv => by rw [(hassign v).2, if_neg fun h => hv ((hmem v).mp h.1)] }

theorem Filled.exit_score (h : Filled g inside c p value value' x) :
    x.score = p.get x.state + (g.bestExit inside value x.state).1 := congrArg Exit.score h.exit_eq

theorem Filled.exit_edge (h : Filled g inside c p value value' x) :
    x.edge = (g.bestExit inside value x.state).2 := congrArg Exit.edge h.exit_eq

theorem Filled.nonneg (h : Filled g inside c p value value' x) (hg : g.WellFormed)
    (hinside : ∀ t, inside t = true ↔ t ∈ c) {u : StateId} (hu : u ∈ c) : 0 ≤ value'.getD u 0 := by
  have hstay := (bestExit_spec hg hinside value u).1
  have hle := h.best u hu
  rw [h.inner u hu]
  omega

/-- No edge promises more than the value of its source. -/
theorem Filled.edge_le (h : Filled g inside c p value value' x) (hg : g.WellFormed)
    (hinside : ∀ t, inside t = true ↔ t ∈ c) {a : Edge} (ha : a ∈ g.edges) (hsource : a.source ∈ c)
    (hagrees : AgreesAt g c p a.source) :
    a.weight + value'.getD a.target 0 ≤ value'.getD a.source 0 := by
  rw [h.inner _ hsource]
  by_cases ht : a.target ∈ c
  · rw [h.inner _ ht, (hagrees a ha rfl ht).2]
    omega
  · have hexit := (bestExit_spec hg hinside value a.source).2.1 a ha rfl ht
    have hle := h.best _ hsource
    rw [h.outer _ ht]
    omega

/-- The walk that attains a value goes to the state of the exit. It ends there, or it leaves by an edge and
goes on as the walk that attains the value of the target. -/
theorem Filled.attained (h : Filled g inside c p value value' x) (hg : g.WellFormed)
    (hc : Component g earlier c) (hinside : ∀ t, inside t = true ↔ t ∈ c)
    (hagrees : ∀ u ∈ c, AgreesAt g c p u)
    (hearlier : ∀ v, earlier v → ∃ t, g.Walk v t (value.getD v 0)) {u : StateId} (hu : u ∈ c) :
    ∃ t, g.Walk u t (value'.getD u 0) := by
  have hwalk := exists_inner_walk hg hc hagrees hu h.state_mem
  rw [h.inner u hu, h.exit_score]
  rcases (bestExit_spec hg hinside value x.state).2.2 with hzero | ⟨a, ha, hsource, ht, hexit⟩
  · rw [hzero, add_zero]
    exact ⟨x.state, hwalk⟩
  · have hleave : ⟨x.state, a.target, a.kind⟩ ∈ g.edges := hsource ▸ ha
    have htarget := (hc.target _ h.state_mem _ ⟨a.kind, hleave⟩).resolve_left ht
    obtain ⟨t, hrest⟩ := hearlier _ htarget
    refine ⟨t, ?_⟩
    have htotal := hwalk.append (.cons hleave hrest)
    rw [hexit]
    convert htotal using 1
    rw [Edge.weight]
    ring

theorem Filled.leaves (h : Filled g inside c p value value' x) (hg : g.WellFormed)
    (hc : Component g earlier c) (hinside : ∀ t, inside t = true ↔ t ∈ c) (exits : Array Exit) :
    Leaves g earlier c ⟨p, value', exits⟩ x := by
  obtain ⟨hzero, hleave⟩ := promises_bestExit (g := g) hinside value x.state
  refine ⟨h.state_mem, fun hnone u hu => ?_, fun e he => ?_⟩
  · rw [h.inner u hu, h.exit_score, hzero (h.exit_edge.symm.trans hnone), add_zero]
  · obtain ⟨hmem, htarget, hweight⟩ := hleave e (h.exit_edge.symm.trans he)
    obtain ⟨a, ha, hsource⟩ := (hg.mem_outgoing x.state e).mp hmem
    have hlt := lt_of_getElem? ha
    rw [← edge_eq ha] at hsource
    have harrow : g.Arrow x.state (g.edge e).target := ⟨(g.edge e).kind, hsource ▸ edge_mem hlt⟩
    refine ⟨hlt, hsource, (hc.target _ h.state_mem _ harrow).resolve_left htarget, fun u hu => ?_⟩
    rw [h.inner u hu, h.exit_score, hweight, exitWeight, exitWeight, h.outer _ htarget]
    ring

end Filled

/-- The values of a component whose potentials agree with all its edges. -/
theorem Swept.extend (hg : g.WellFormed) (hl : g.Layered comps)
    (hall : ∀ u < g.size, ∃ c ∈ comps, u ∈ c) {i : Nat} {c : List StateId}
    (hc : comps[i]? = some c) {s : Sweep} (hs : Swept g comps i s) {inside : StateId → Bool}
    (hinside : ∀ t, inside t = true ↔ t ∈ c) {root : StateId} {q : Potentials}
    (hq : Spread g c root s.potentials q) {order : List StateId} (hmem : ∀ t, t ∈ order ↔ t ∈ c)
    (hhas : ∀ t ∈ c, q.has t = true) (hagrees : ∀ u ∈ c, AgreesAt g c q u) :
    Swept g comps (i + 1)
      ⟨q, order.foldl (fun value x => value.setIfInBounds x
        ((g.exitOf inside q s.value order).score - q.get x)) s.value,
        s.exits.push (g.exitOf inside q s.value order)⟩ := by
  have hcomp := hl.component hg hall hc
  have hfilled := filled_exitOf hcomp inside q hs.sizes.2 hmem
  generalize g.exitOf inside q s.value order = exit at hfilled ⊢
  generalize order.foldl (fun value x => value.setIfInBounds x (exit.score - q.get x)) s.value = value'
    at hfilled ⊢
  have hearlier : ∀ u, Before comps i u → u ∉ c := fun u hu huc => hcomp.fresh u huc hu
  refine ⟨⟨hq.size_eq, hfilled.size_eq.trans hs.sizes.2⟩, hq.via_size, ?_, ?_, ?_, ?_, ?_, ?_, ?_⟩
  · intro u hu
    rw [before_succ hc]
    by_cases huc : u ∈ c
    · simp [huc, hhas u huc]
    · rw [(hq.outside u huc).2, hs.has_iff u hu]
      simp [huc]
  · intro j hj d hd u hu
    rcases Nat.lt_succ_iff_lt_or_eq.mp hj with hj | rfl
    · intro a ha hsource htarget
      have hu' := hearlier u ⟨j, hj, d, hd, hu⟩
      have ht' := hearlier a.target ⟨j, hj, d, hd, htarget⟩
      rw [(hq.outside u hu').1, (hq.outside _ ht').1, (hq.outside _ ht').2]
      exact hs.agrees j hj d hd u hu a ha hsource htarget
    · obtain rfl : c = d := Option.some.inj (hc.symm.trans hd)
      exact hagrees u hu
  · intro u hu
    rcases (before_succ hc u).mp hu with hu | hu
    · rw [hfilled.outer u (hearlier u hu)]
      exact hs.nonneg u hu
    · exact hfilled.nonneg hg hinside hu
  · intro a ha hu
    rcases (before_succ hc _).mp hu with hu | hu
    · have ht := hcomp.closed _ _ hu ⟨a.kind, ha⟩
      rw [hfilled.outer _ (hearlier _ hu), hfilled.outer _ (hearlier _ ht)]
      exact hs.edge_le a ha hu
    · exact hfilled.edge_le hg hinside ha hu (hagrees _ hu)
  · intro u hu
    rcases (before_succ hc u).mp hu with hu | hu
    · rw [hfilled.outer u (hearlier u hu)]
      exact hs.attained u hu
    · exact hfilled.attained hg hcomp hinside hagrees hs.attained hu
  · rw [Array.size_push, hs.exits_size]
  · intro j hj d hd
    rcases Nat.lt_succ_iff_lt_or_eq.mp hj with hj | rfl
    · have hkept : (s.exits.push exit).getD j default = s.exits.getD j default := by
        rw [Array.getD_eq_getD_getElem?, Array.getD_eq_getD_getElem?,
          Array.getElem?_push_lt (hs.exits_size ▸ hj), Array.getElem?_eq_getElem (hs.exits_size ▸ hj)]
      rw [hkept]
      refine (hs.exits j hj d hd).congr (fun u hu => ?_) (fun u hu => hfilled.outer u ?_)
      · exact (hq.outside u (hearlier u ⟨j, hj, d, hd, hu⟩)).1
      · rcases hu with hu | ⟨l, hl', d', hd', hu⟩
        · exact hearlier u ⟨j, hj, d, hd, hu⟩
        · exact hearlier u ⟨l, hl'.trans hj, d', hd', hu⟩
    · obtain rfl : c = d := Option.some.inj (hc.symm.trans hd)
      have hlast : (s.exits.push exit).getD j default = exit := by
        rw [Array.getD_eq_getD_getElem?, ← hs.exits_size, Array.getElem?_push_size, Option.getD_some]
      rw [hlast]
      exact hfilled.leaves hg hcomp hinside _

/-- The edge of the conflict breaks the rule in the component of its first state. -/
structure Conflicting (g : Graph) (comps : List (List StateId)) (conflict : Conflict)
    (i : Nat) (c : List StateId) : Prop where
  /-- The component is one of the list. -/
  component : comps[i]? = some c
  /-- The potentials were spread from one of its states. -/
  root_mem : conflict.root ∈ c
  /-- They are in order. -/
  spread : ∃ p₀, Spread g c conflict.root p₀ conflict.potentials
  /-- The edge is one of the graph. -/
  edge_lt : conflict.edge < g.edges.size
  /-- It contradicts the potentials. -/
  breaks : Breaks g c conflict.potentials (g.edge conflict.edge)

/-- Processing the next component, or finding an edge that breaks the rule. -/
theorem sweepComponent_spec (hg : g.WellFormed) (hl : g.Layered comps)
    (hall : ∀ u < g.size, ∃ c ∈ comps, u ∈ c) {i : Nat} {c : List StateId}
    (hc : comps[i]? = some c) {s : Sweep} (hs : Swept g comps i s) :
    match g.sweepComponent (g.componentOf comps) i c s with
    | .ok s' => Swept g comps (i + 1) s'
    | .error conflict => Conflicting g comps conflict i c := by
  have hcomp := hl.component hg hall hc
  have hinside := inside_iff hl hall hc
  obtain ⟨root, rest, hcons⟩ := List.exists_cons_of_ne_nil hcomp.nonempty
  have hroot : root ∈ c := hcons ▸ List.mem_cons_self
  have hhead : c.headD 0 = root := by rw [hcons]; rfl
  obtain ⟨p₀, value, exits⟩ := s
  have hp₀ : ∀ t ∈ c, p₀.has t = false := by
    intro t ht
    refine Bool.eq_false_of_not_eq_true fun hhas => hcomp.fresh t ht ?_
    exact (hs.has_iff t (hcomp.lt t ht)).mp hhas
  have hspread := spread_spec hg hcomp hinside hroot hs.sizes.1 hs.via_size hp₀
  rw [sweepComponent, hhead]
  dsimp only
  generalize g.spread (fun t => (g.componentOf comps)[t]? == some i) (c.length + 1) [root]
    (p₀.assign root 0 none) [] = result at hspread ⊢
  rcases result with ⟨e, q⟩ | ⟨q, order⟩
  · obtain ⟨hq, hlt, hbreaks⟩ := hspread
    exact ⟨hc, hroot, ⟨p₀, hq⟩, hlt, hbreaks⟩
  · obtain ⟨hq, hmem, hhas, hagrees⟩ := hspread
    exact hs.extend hg hl hall hc hinside hq hmem hhas hagrees

/-- Processing all components from number `i` on. -/
theorem sweep_spec (hg : g.WellFormed) (hl : g.Layered comps)
    (hall : ∀ u < g.size, ∃ c ∈ comps, u ∈ c) {i : Nat} {rest : List (List StateId)}
    (hrest : comps.drop i = rest) {s : Sweep} (hs : Swept g comps i s) :
    match g.sweep (g.componentOf comps) i rest s with
    | .ok s' => Swept g comps (i + rest.length) s'
    | .error conflict => ∃ j c, Conflicting g comps conflict j c := by
  induction rest generalizing i s with
  | nil => exact hs
  | cons c rest ih =>
    have hc : comps[i]? = some c := by
      rw [← List.head?_drop, hrest, List.head?_cons]
    have hnext : comps.drop (i + 1) = rest := by
      rw [← List.tail_drop, hrest, List.tail_cons]
    have hstep := sweepComponent_spec hg hl hall hc hs
    rw [sweep]
    generalize g.sweepComponent (g.componentOf comps) i c s = result at hstep ⊢
    rcases result with conflict | s'
    · exact ⟨i, c, hstep⟩
    · have hdone := ih hnext hstep
      rwa [Nat.add_right_comm, Nat.add_assoc] at hdone

/-- Nothing has been processed yet. -/
theorem swept_fresh (g : Graph) (comps : List (List StateId)) :
    Swept g comps 0 { potentials := .fresh g.size, value := Array.replicate g.size 0 } := by
  have hnone : ∀ u, ¬ Before comps 0 u := fun u ⟨j, hj, _⟩ => Nat.not_lt_zero j hj
  refine ⟨⟨Array.size_replicate, Array.size_replicate⟩, Array.size_replicate, fun u _ => ?_,
    fun j hj => absurd hj (Nat.not_lt_zero j), fun u hu => absurd hu (hnone u),
    fun a _ hu => absurd hu (hnone _), fun u hu => absurd hu (hnone u), rfl,
    fun j hj => absurd hj (Nat.not_lt_zero j)⟩
  refine ⟨fun h => ?_, fun h => absurd h (hnone u)⟩
  simp only [Potentials.has, Potentials.fresh, Array.getD_eq_getD_getElem?,
    Array.getElem?_replicate] at h
  split at h <;> simp at h

/-! ### The two answers -/

/-- No walk is heavier than the value of its first state. -/
theorem Swept.walk_le (hg : g.WellFormed) {i : Nat} {s : Sweep} (hs : Swept g comps i s)
    (hall : ∀ u < g.size, Before comps i u) {u t : StateId} {w : Int} (hu : u < g.size)
    (h : g.Walk u t w) : w ≤ s.value.getD u 0 := by
  induction h with
  | refl u => exact hs.nonneg u (hall u hu)
  | @cons u v t k w he _ ih =>
    have hedge : k.weight + s.value.getD v 0 ≤ s.value.getD u 0 := hs.edge_le _ he (hall u hu)
    have hrest := ih (hg.target_lt _ he)
    omega

theorem neg_one_le_weight (k : EdgeKind) : -1 ≤ k.weight := by
  cases k <;> decide

/-- A walk weighs the difference of the potentials, except that each step up the list of components may
lose what potentials can differ by. -/
theorem Swept.le_walk (hg : g.WellFormed) (hl : g.Layered comps)
    (hall : ∀ u < g.size, ∃ c ∈ comps, u ∈ c) {s : Sweep} (hs : Swept g comps comps.length s)
    {bound : Int} (hbound : ∀ u < g.size, |s.potentials.get u| ≤ bound) {u x : StateId} {w : Int}
    (h : g.Walk u x w) {i : Nat} {c : List StateId} (hc : comps[i]? = some c) (hu : u ∈ c) :
    ∃ j : Nat, j ≤ i ∧
      s.potentials.get x - s.potentials.get u - ((i : Int) - j) * (2 * bound + 1) ≤ w := by
  induction h generalizing i c with
  | refl u => exact ⟨i, le_rfl, by simp⟩
  | @cons u v x k w he _ ih =>
    have hsource := hg.source_lt _ he
    have htarget := hg.target_lt _ he
    obtain ⟨d, hd, hv⟩ := hall v htarget
    obtain ⟨l, hl'⟩ := List.mem_iff_getElem?.mp hd
    obtain ⟨i', c', hc', hu', hle⟩ := hl.place_le hl' hv ⟨k, he⟩
    obtain rfl := hl.place_unique hc' hc hu' hu
    obtain ⟨j, hj, hrest⟩ := ih hl' hv
    refine ⟨j, hj.trans hle, ?_⟩
    rcases hle.lt_or_eq with hlt | rfl
    · have hpu := abs_le.mp (hbound u hsource)
      have hpv := abs_le.mp (hbound v htarget)
      have hweight := neg_one_le_weight k
      have hsteps : 1 ≤ (i' : Int) - l := by omega
      have hloss : 2 * bound + 1 ≤ ((i' : Int) - l) * (2 * bound + 1) := by
        have hpos : 0 ≤ 2 * bound + 1 := by omega
        calc 2 * bound + 1 = 1 * (2 * bound + 1) := (one_mul _).symm
          _ ≤ ((i' : Int) - l) * (2 * bound + 1) := mul_le_mul_of_nonneg_right hsteps hpos
      have hsplit : ((i' : Int) - j) * (2 * bound + 1) =
          ((i' : Int) - l) * (2 * bound + 1) + ((l : Int) - j) * (2 * bound + 1) := by ring
      omega
    · obtain rfl : c' = d := Option.some.inj (hc'.symm.trans hl')
      have hlt := (List.getElem?_eq_some_iff.mp hl').1
      have hget := (hs.agrees l hlt c' hl' u hu' _ he rfl hv).2
      rw [Edge.weight] at hget
      dsimp only at hget
      omega

/-- The potentials of finitely many states are bounded. -/
theorem exists_potential_bound (p : Potentials) (n : Nat) : ∃ bound, ∀ u < n, |p.get u| ≤ bound := by
  refine ⟨∑ u ∈ Finset.range n, |p.get u|, fun u hu => ?_⟩
  exact Finset.single_le_sum (f := fun u => |p.get u|) (fun v _ => abs_nonneg _)
    (Finset.mem_range.mpr hu)

/-- What the answer says about the walks from the start state. -/
theorem maxPath_spec (hg : g.WellFormed) (heden : g.eden < g.size) :
    match g.maxPath with
    | .bounded depth _ => (∃ t, g.Walk g.eden t depth) ∧ (∀ t w, g.Walk g.eden t w → w ≤ depth) ∧
        ∃ least, ∀ t w, g.Walk g.eden t w → least ≤ w
    | .unbounded _ _ => ∃ u < g.size, ∃ w, w ≠ 0 ∧ g.Walk u u w := by
  obtain ⟨hl, hall⟩ := layered_components hg
  have hsweep := sweep_spec hg hl hall (i := 0) List.drop_zero (swept_fresh g g.components)
  rw [maxPath]
  generalize g.sweep (g.componentOf g.components) 0 g.components
    { potentials := .fresh g.size, value := Array.replicate g.size 0 } = result at hsweep ⊢
  rcases result with conflict | s
  · obtain ⟨i, c, hconflict⟩ := hsweep
    obtain ⟨p₀, hspread⟩ := hconflict.spread
    have hcomp := hl.component hg hall hconflict.component
    obtain ⟨w, hw, hwalk⟩ := exists_closed_walk hcomp hconflict.root_mem hspread hconflict.breaks
    exact ⟨conflict.root, hcomp.lt _ hconflict.root_mem, w, hw, hwalk⟩
  · dsimp only at hsweep ⊢
    rw [Nat.zero_add] at hsweep
    have hplace : ∀ u < g.size, ∃ (i : Nat) (c : List StateId),
        g.components[i]? = some c ∧ u ∈ c := by
      intro u hu
      obtain ⟨c, hc, huc⟩ := hall u hu
      obtain ⟨i, hi⟩ := List.mem_iff_getElem?.mp hc
      exact ⟨i, c, hi, huc⟩
    have hbefore : ∀ u < g.size, Before g.components g.components.length u := by
      intro u hu
      obtain ⟨i, c, hc, huc⟩ := hplace u hu
      exact ⟨i, (List.getElem?_eq_some_iff.mp hc).1, c, hc, huc⟩
    refine ⟨hsweep.attained _ (hbefore _ heden), fun t w h => hsweep.walk_le hg hbefore heden h, ?_⟩
    obtain ⟨bound, hbound⟩ := exists_potential_bound s.potentials g.size
    obtain ⟨i, c, hc, heden'⟩ := hplace g.eden heden
    refine ⟨-(2 * bound) - i * (2 * bound + 1), fun t w h => ?_⟩
    obtain ⟨j, hj, hle⟩ := hsweep.le_walk hg hl hall hbound h hc heden'
    have hpt := abs_le.mp (hbound t (h.lt hg heden))
    have hpe := abs_le.mp (hbound g.eden heden)
    have hloss : ((i : Int) - j) * (2 * bound + 1) ≤ i * (2 * bound + 1) := by
      have hpos : 0 ≤ 2 * bound + 1 := by omega
      have hsteps : (i : Int) - j ≤ i := by omega
      exact mul_le_mul_of_nonneg_right hsteps hpos
    omega

end Graph

end StackDepth
