import Mathlib
import StackDepth.Proofs.Graph.Route
import StackDepth.Proofs.Graph.MaxPath
import StackDepth.Proofs.Graph.Tarjan

/-!
# Components and cyclic regions

The two searches give the components in the order in which a single search completes them. Both lists are
in the order in which the first states of the components were finished: the single search completes a
component when it finishes its root, after all states of the components that are complete already, and the
search against the arrows starts a component at the state of it that was finished last. This order admits
one list of the components only.

A component is a cyclic region if a closed route of at least one edge passes through its states. A closed
route stays in one component, so that the regions are what the closed routes pass through.

* `Graph.ranked_components`: the order in which the components are found;
* `Graph.components_eq_search`: the components are those of a single search;
* `Graph.isCyclic_iff`, `Graph.exists_tour`: closed routes in a component;
* `Graph.components_and_cyclicRegions`: both lists.
-/

namespace StackDepth

/-! ### Ascending lists -/

theorem ascending_mergeSort {l : List Nat} (h : l.Nodup) : (l.mergeSort (· ≤ ·)).Pairwise (· < ·) := by
  have hle : (l.mergeSort (· ≤ ·)).Pairwise (· ≤ ·) := List.pairwise_mergeSort' (· ≤ ·) l
  have hne : (l.mergeSort (· ≤ ·)).Nodup := (List.mergeSort_perm l (· ≤ ·)).nodup_iff.mpr h
  exact (hle.and hne).imp fun ⟨hle, hne⟩ => Nat.lt_of_le_of_ne hle hne

/-- An ascending list is determined by its members. -/
theorem eq_of_ascending {l l' : List Nat} (h : l.Pairwise (· < ·)) (h' : l'.Pairwise (· < ·))
    (hmem : ∀ u, u ∈ l ↔ u ∈ l') : l = l' := by
  have hperm := (List.perm_ext_iff_of_nodup (h.imp Nat.ne_of_lt) (h'.imp Nat.ne_of_lt)).mpr hmem
  exact hperm.eq_of_pairwise (fun a b _ _ hab hba => absurd hab (Nat.lt_asymm hba)) h h'

theorem ascending_eraseDups {l : List Nat} (h : l.Pairwise (· ≤ ·)) : l.eraseDups.Pairwise (· < ·) := by
  generalize hn : l.length = n
  induction n using Nat.strong_induction_on generalizing l with
  | _ n ih =>
    cases l with
    | nil => exact List.Pairwise.nil
    | cons a as =>
      obtain ⟨hle, has⟩ := List.pairwise_cons.mp h
      rw [List.eraseDups_cons, List.pairwise_cons]
      refine ⟨fun b hb => ?_, ih _ ?_ (has.filter _) rfl⟩
      · rw [List.mem_eraseDups, List.mem_filter] at hb
        have hne : b ≠ a := by simpa using hb.2
        exact Nat.lt_of_le_of_ne (hle b hb.1) (Ne.symm hne)
      · rw [← hn, List.length_cons]
        exact Nat.lt_succ_of_le (List.length_filter_le _ as)

namespace Graph

variable {g : Graph} {comps : List (List StateId)}

theorem ascending_sortedIds (ids : List StateId) : (sortedIds ids).Pairwise (· < ·) :=
  ascending_eraseDups (List.pairwise_mergeSort' (· ≤ ·) ids)

theorem ascending_neighbours (g : Graph) (u : StateId) : (neighbours g.adjacency u).Pairwise (· < ·) := by
  by_cases hu : u < g.size
  · have heq : neighbours g.adjacency u = g.successors u := by
      simp [neighbours, adjacency, Array.getD_eq_getD_getElem?, hu]
    rw [heq]
    exact ascending_sortedIds _
  · have heq : neighbours g.adjacency u = [] := by
      simp [neighbours, adjacency, Array.getD_eq_getD_getElem?, hu]
    rw [heq]
    exact List.Pairwise.nil

theorem leads_adjacency (hg : g.WellFormed) (u v : StateId) :
    Tarjan.Leads g.adjacency u v ↔ Relation.ReflTransGen g.Arrow u v := by
  constructor
  · exact fun h => Relation.ReflTransGen.mono (fun u v h => (mem_neighbours_adjacency hg u v).mp h) _ _ h
  · exact fun h => Relation.ReflTransGen.mono (fun u v h => (mem_neighbours_adjacency hg u v).mpr h) _ _ h

/-! ### The order of the components -/

/-- The components that have been found when the states of `before` have been searched from, the latest
first. -/
structure Ranked (finished before : List StateId) (comps : List (List StateId)) : Prop where
  /-- The states of a component are listed in increasing order. -/
  ascending : ∀ c ∈ comps, c.Pairwise (· < ·)
  /-- Every component was found by a search from one of the states. -/
  started : ∀ c ∈ comps, ∃ y ∈ before, y ∈ c
  /-- Every component has a state that was finished after all states of those before it. -/
  order : comps.Pairwise fun c d => Tarjan.Later finished d c

theorem Ranked.addComponent {before behind : List StateId} {x : StateId}
    (horder : g.finishingOrder = before ++ x :: behind) {seen seen' : Array Bool}
    {comps' : List (List StateId)} (hsize : seen.size = g.size) (hbefore : ∀ u ∈ before, IsSeen seen u)
    (hr : Ranked g.finishingOrder before comps)
    (h : Graph.addComponent g.backward (Search.fuelFor g.backward 1) (seen, comps) x = (seen', comps')) :
    Ranked g.finishingOrder (before ++ [x]) comps' := by
  obtain ⟨seen₁, found, htrav, hcases⟩ :=
    addComponent_cases (hsize.trans g.size_backward.symm) comps x
  have hstarted : ∀ c ∈ comps, ∃ y ∈ before ++ [x], y ∈ c := by
    intro c hc
    obtain ⟨y, hy, hyc⟩ := hr.started c hc
    exact ⟨y, List.mem_append_left _ hy, hyc⟩
  rcases hcases with ⟨-, hadd⟩ | ⟨hne, hadd⟩
  · obtain ⟨rfl, rfl⟩ := Prod.mk.inj (hadd.symm.trans h)
    exact ⟨hr.ascending, hstarted, hr.order⟩
  · obtain ⟨rfl, rfl⟩ := Prod.mk.inj (hadd.symm.trans h)
    have hx : x ∈ found := by
      obtain ⟨r, hr⟩ := List.exists_mem_of_ne_nil found hne
      obtain ⟨v, hv, hnew, -⟩ := htrav.reached hr
      rw [List.mem_singleton.mp hv] at hnew
      exact ((htrav.seen_iff x).mp (htrav.list_seen (List.mem_singleton_self x))).resolve_left hnew
    have hbehind : found ⊆ x :: behind := by
      intro u hu
      have hnew := htrav.not_seen_of_mem hu
      have hlisted := ((finishingOrder_spec g).1 u).mpr (hsize ▸ lt_of_not_isSeen hnew)
      rw [horder] at hlisted
      exact (List.mem_append.mp hlisted).resolve_left fun hmem => hnew (hbefore u hmem)
    refine ⟨fun c hc => ?_, fun c hc => ?_, List.pairwise_cons.mpr ⟨fun d hd => ?_, hr.order⟩⟩
    · rcases List.mem_cons.mp hc with rfl | hc
      · exact ascending_mergeSort htrav.nodup
      · exact hr.ascending c hc
    · rcases List.mem_cons.mp hc with rfl | hc
      · exact ⟨x, by simp, List.mem_mergeSort.mpr hx⟩
      · exact hstarted c hc
    · obtain ⟨y, hy, hyd⟩ := hr.started d hd
      obtain ⟨start, rest, rfl⟩ := List.append_of_mem hy
      refine ⟨start, y, rest ++ x :: behind, by simpa using horder, hyd, fun u hu => ?_⟩
      exact List.mem_append_right rest (hbehind (List.mem_mergeSort.mp hu))

/-- The components stand in the order in which their first states were finished. -/
theorem ranked_components (hg : g.WellFormed) : Ranked g.finishingOrder g.finishingOrder g.components := by
  have hnone : Ranked g.finishingOrder [] [] := by
    refine ⟨?_, ?_, List.Pairwise.nil⟩
    all_goals
      intro c hc
      exact absurd hc List.not_mem_nil
  obtain ⟨_, -, hr⟩ := g.components_induction (P := fun before seen comps =>
      g.SortedUpTo before seen comps ∧ Ranked g.finishingOrder before comps) ⟨.init g, hnone⟩
    fun before x behind seen comps horder ⟨⟨hs, hbefore⟩, hr⟩ =>
      ⟨hs.addComponent hg horder hbefore rfl, hr.addComponent horder hs.size_eq hbefore rfl⟩
  exact hr

/-! ### One list of components -/

theorem idxOf_lt {finished before behind : List StateId} {x y : StateId} (hnodup : finished.Nodup)
    (heq : finished = before ++ x :: behind) (hy : y ∈ behind) : finished.idxOf x < finished.idxOf y := by
  rw [heq] at hnodup ⊢
  obtain ⟨-, hcons, hapart⟩ := List.nodup_append.mp hnodup
  have hx : x ∉ before := fun hmem => hapart x hmem x List.mem_cons_self rfl
  have hy' : y ∉ before := fun hmem => hapart y hmem y (List.mem_cons_of_mem x hy) rfl
  have hne : x ≠ y := fun heq => (List.nodup_cons.mp hcons).1 (heq ▸ hy)
  rw [List.idxOf_append_of_notMem hx, List.idxOf_append_of_notMem hy', List.idxOf_cons_self,
    List.idxOf_cons_ne _ hne]
  omega

theorem not_later_of_later {finished c d : List StateId} (hnodup : finished.Nodup)
    (h : Tarjan.Later finished c d) : ¬ Tarjan.Later finished d c := by
  obtain ⟨before, x, behind, heq, hx, hsub⟩ := h
  intro ⟨before', y, behind', heq', hy, hsub'⟩
  have hxy := idxOf_lt hnodup heq (hsub hy)
  have hyx := idxOf_lt hnodup heq' (hsub' hx)
  omega

/-- The order of finishing admits one list of the same components. -/
theorem eq_of_later {finished : List StateId} (hnodup : finished.Nodup) {comps comps' : List (List StateId)}
    (h : comps.Pairwise fun c d => Tarjan.Later finished d c)
    (h' : comps'.Pairwise fun c d => Tarjan.Later finished d c) (hmem : ∀ c, c ∈ comps ↔ c ∈ comps') :
    comps = comps' := by
  have hne : ∀ {c d : List StateId}, Tarjan.Later finished d c → c ≠ d := by
    rintro c d hlater rfl
    exact not_later_of_later hnodup hlater hlater
  have hperm := (List.perm_ext_iff_of_nodup (h.imp hne) (h'.imp hne)).mpr hmem
  exact hperm.eq_of_pairwise (fun c d _ _ hcd hdc => absurd hdc (not_later_of_later hnodup hcd)) h h'

/-- Along a path the places do not increase. -/
theorem Layered.place_le_of_path (h : g.Layered comps) {j : Nat} {d : List StateId} {u v : StateId}
    (hd : comps[j]? = some d) (hv : v ∈ d) (hpath : Relation.ReflTransGen g.Arrow u v) :
    ∃ i c, comps[i]? = some c ∧ u ∈ c ∧ j ≤ i := by
  induction hpath using Relation.ReflTransGen.head_induction_on with
  | refl => exact ⟨j, d, hd, hv, le_rfl⟩
  | head harrow _ ih =>
    obtain ⟨k, e, he, hmem, hjk⟩ := ih
    obtain ⟨i, c, hc, hu, hki⟩ := h.place_le he hmem harrow
    exact ⟨i, c, hc, hu, hjk.trans hki⟩

/-- States that lead to each other are in one component. -/
theorem Layered.mem_iff (h : g.Layered comps) {c : List StateId} (hc : c ∈ comps) {u : StateId}
    (hu : u ∈ c) (w : StateId) :
    w ∈ c ↔ Relation.ReflTransGen g.Arrow u w ∧ Relation.ReflTransGen g.Arrow w u := by
  obtain ⟨i, hi⟩ := List.mem_iff_getElem?.mp hc
  constructor
  · intro hw
    obtain ⟨-, hstrong, -⟩ := h.cover hi
    exact ⟨hstrong u hu w hw, hstrong w hw u hu⟩
  · intro ⟨huw, hwu⟩
    obtain ⟨j, d, hd, hw, hij⟩ := h.place_le_of_path hi hu hwu
    obtain ⟨k, e, he, hu', hjk⟩ := h.place_le_of_path hd hw huw
    obtain rfl := h.place_unique he hi hu' hu
    obtain rfl : j = k := by omega
    obtain rfl : c = d := Option.some.inj (hi.symm.trans hd)
    exact hw

theorem Layered.isComponent (hg : g.WellFormed) (h : g.Layered comps) {c : List StateId} (hc : c ∈ comps) :
    Tarjan.IsComponent g.adjacency c := by
  obtain ⟨i, hi⟩ := List.mem_iff_getElem?.mp hc
  obtain ⟨⟨hne, hnodup⟩, -, -⟩ := h.cover hi
  refine ⟨hne, hnodup, fun u hu w => ?_⟩
  rw [leads_adjacency hg, leads_adjacency hg]
  exact h.mem_iff hc hu w

/-- The components are those of a single search, in the order in which it completes them. -/
theorem components_eq_search (hg : g.WellFormed) :
    g.components =
      ((Tarjan.search g.adjacency (List.range g.size) {}).found.map (·.mergeSort (· ≤ ·))).reverse := by
  obtain ⟨seen', htrav⟩ := g.finishingOrder_traversal
  have hadj : ∀ u w, w ∈ neighbours g.adjacency u → w < g.adjacency.size := by
    intro u w hw
    rw [size_adjacency]
    exact hg.target_lt _ ((mem_neighbours_adjacency hg u w).mp hw).choose_spec
  rw [← size_adjacency] at htrav
  obtain ⟨hcomponent, hcover, horder⟩ := Tarjan.search_spec hadj htrav
  rw [size_adjacency] at hcomponent hcover horder
  generalize (Tarjan.search g.adjacency (List.range g.size) {}).found = found at hcomponent hcover horder ⊢
  obtain ⟨hl, hall⟩ := layered_components hg
  have hr := ranked_components hg
  have hsorted : ∀ (d : List StateId) (u : StateId), u ∈ d.mergeSort (· ≤ ·) ↔ u ∈ d :=
    fun d u => List.mem_mergeSort
  -- two components of one state agree when they are sorted
  have hsame : ∀ c ∈ g.components, ∀ d ∈ found, ∀ u ∈ c, u ∈ d → c = d.mergeSort (· ≤ ·) := by
    intro c hc d hd u huc hud
    refine eq_of_ascending (hr.ascending c hc) (ascending_mergeSort (hcomponent d hd).nodup) fun w => ?_
    rw [hsorted, (hl.isComponent hg hc).mem_iff u huc, (hcomponent d hd).mem_iff u hud]
  refine eq_of_later htrav.nodup hr.order ?_ fun c => ⟨fun hc => ?_, fun hc => ?_⟩
  · rw [List.pairwise_reverse, List.pairwise_map]
    refine horder.imp fun {c d} hlater => ?_
    obtain ⟨before, x, behind, heq, hx, hsub⟩ := hlater
    exact ⟨before, x, behind, heq, (hsorted c x).mpr hx, fun u hu => hsub ((hsorted d u).mp hu)⟩
  · obtain ⟨i, hi⟩ := List.mem_iff_getElem?.mp hc
    obtain ⟨⟨hne, -⟩, -, hlt⟩ := hl.cover hi
    obtain ⟨u, hu⟩ := List.exists_mem_of_ne_nil c hne
    obtain ⟨d, hd, hud⟩ := (hcover u).mp (hlt u hu)
    rw [List.mem_reverse, hsame c hc d hd u hu hud]
    exact List.mem_map_of_mem hd
  · obtain ⟨d, hd, rfl⟩ := List.mem_map.mp (List.mem_reverse.mp hc)
    obtain ⟨u, hu⟩ := List.exists_mem_of_ne_nil d (hcomponent d hd).ne_nil
    obtain ⟨c, hc, huc⟩ := hall u ((hcover u).mpr ⟨d, hd, hu⟩)
    rw [← hsame c hc d hd u huc hu]
    exact hc

/-! ### A partition -/

theorem Layered.eq_of_mem (h : g.Layered comps) {c d : List StateId} (hc : c ∈ comps) (hd : d ∈ comps)
    {u : StateId} (huc : u ∈ c) (hud : u ∈ d) : c = d := by
  obtain ⟨i, hi⟩ := List.mem_iff_getElem?.mp hc
  obtain ⟨j, hj⟩ := List.mem_iff_getElem?.mp hd
  obtain rfl := h.place_unique hi hj huc hud
  exact Option.some.inj (hi.symm.trans hj)

theorem Layered.lt_size (h : g.Layered comps) {c : List StateId} (hc : c ∈ comps) {u : StateId}
    (hu : u ∈ c) : u < g.size := by
  obtain ⟨i, hi⟩ := List.mem_iff_getElem?.mp hc
  exact (h.cover hi).2.2 u hu

theorem Layered.flatten_nodup (hg : g.WellFormed) (h : g.Layered comps) : comps.flatten.Nodup := by
  refine List.nodup_flatten.mpr ⟨fun c hc => (h.isComponent hg hc).nodup, ?_⟩
  refine List.pairwise_iff_getElem.mpr fun i j hi hj hij u hu hu' => ?_
  exact hij.ne (h.place_unique (List.getElem?_eq_getElem hi) (List.getElem?_eq_getElem hj) hu hu')

/-- The lists are the components of the graph, successors first. -/
structure Condensation (g : Graph) (comps : List (List StateId)) : Prop where
  /-- Every state is in one list, once. -/
  partition : comps.flatten.Perm (List.range g.size)
  /-- No list is empty. -/
  ne_nil : ∀ c ∈ comps, c ≠ []
  /-- Every list is in increasing order. -/
  ascending : ∀ c ∈ comps, c.Pairwise (· < ·)
  /-- Two states are in one list if they lead to each other. -/
  together : ∀ u < g.size, ∀ v < g.size, (∃ c ∈ comps, u ∈ c ∧ v ∈ c) ↔
    Relation.ReflTransGen g.Arrow u v ∧ Relation.ReflTransGen g.Arrow v u
  /-- An edge leads to a list that comes no later. -/
  successors_first : ∀ (i j : Nat) (c d : List StateId), comps[i]? = some c → comps[j]? = some d →
    ∀ u ∈ c, ∀ v ∈ d, g.Arrow u v → j ≤ i

theorem condensation_components (hg : g.WellFormed) : g.Condensation g.components := by
  obtain ⟨hl, hall⟩ := layered_components hg
  refine ⟨?_, fun c hc => (hl.isComponent hg hc).ne_nil, (ranked_components hg).ascending,
    fun u hu v _ => ?_, fun i j c d hc hd u hu v hv harrow => ?_⟩
  · refine (List.perm_ext_iff_of_nodup (hl.flatten_nodup hg) List.nodup_range).mpr fun u => ?_
    rw [List.mem_flatten, List.mem_range]
    exact ⟨fun ⟨c, hc, hu⟩ => hl.lt_size hc hu, hall u⟩
  · constructor
    · intro ⟨c, hc, huc, hvc⟩
      exact (hl.mem_iff hc huc v).mp hvc
    · intro hpaths
      obtain ⟨c, hc, huc⟩ := hall u hu
      exact ⟨c, hc, huc, (hl.mem_iff hc huc v).mpr hpaths⟩
  · obtain ⟨k, e, he, hue, hle⟩ := hl.place_le hd hv harrow
    rwa [hl.place_unique he hc hue hu] at hle

/-! ### Closed routes -/

theorem joins_iff (hg : g.WellFormed) (u v : StateId) : g.joins u v = true ↔ g.Arrow u v := by
  simp only [joins, hasNode, hg.nodes_size, Bool.and_eq_true, decide_eq_true_eq, List.any_eq_true, beq_iff_eq]
  constructor
  · rintro ⟨-, e, he, htarget⟩
    obtain ⟨a, ha, hsource⟩ := (hg.mem_outgoing u e).mp he
    rw [edge_eq ha] at htarget
    exact ⟨a.kind, by rw [← hsource, ← htarget]; exact Array.mem_of_getElem? ha⟩
  · rintro ⟨k, hk⟩
    obtain ⟨e, he⟩ := Array.mem_iff_getElem?.mp hk
    refine ⟨⟨hg.source_lt _ hk, hg.target_lt _ hk⟩, e, (hg.mem_outgoing u e).mpr ⟨_, he, rfl⟩, ?_⟩
    rw [edge_eq he]

theorem exists_route {u v : StateId} (hpath : Relation.ReflTransGen g.Arrow u v) : ∃ es, g.Route u es v := by
  induction hpath using Relation.ReflTransGen.head_induction_on with
  | refl => exact ⟨[], rfl⟩
  | head harrow _ ih =>
    obtain ⟨es, hes⟩ := ih
    obtain ⟨k, hk⟩ := harrow
    obtain ⟨e, he⟩ := Array.mem_iff_getElem?.mp hk
    exact ⟨e :: es, lt_of_getElem? he, by rw [edge_eq he], by rw [edge_eq he]; exact hes⟩

theorem isCyclic_of_arrow (hg : g.WellFormed) {c : List StateId} {u v : StateId} (hu : u ∈ c) (hv : v ∈ c)
    (harrow : g.Arrow u v) : g.isCyclic c = true := by
  match c with
  | [] => exact absurd hu List.not_mem_nil
  | [id] =>
    rw [List.mem_singleton.mp hu, List.mem_singleton.mp hv] at harrow
    exact (joins_iff hg id id).mpr harrow
  | _ :: _ :: _ => rfl

/-- In a component that contains a cycle every state has an arrow into the component. -/
theorem Layered.exists_arrow (hg : g.WellFormed) (h : g.Layered comps) {c : List StateId} (hc : c ∈ comps)
    (hcyclic : g.isCyclic c = true) {u : StateId} (hu : u ∈ c) : ∃ v ∈ c, g.Arrow u v := by
  have hnodup := (h.isComponent hg hc).nodup
  match c with
  | [] => exact absurd hu List.not_mem_nil
  | [id] =>
    rw [List.mem_singleton.mp hu]
    exact ⟨id, List.mem_singleton_self id, (joins_iff hg id id).mp hcyclic⟩
  | a :: b :: rest =>
    -- the way to another state of the component begins with such an arrow
    obtain ⟨w, hw, hne⟩ : ∃ w ∈ a :: b :: rest, w ≠ u := by
      by_cases hua : u = a
      · refine ⟨b, by simp, fun heq => (List.nodup_cons.mp hnodup).1 ?_⟩
        rw [← hua, ← heq]
        exact List.mem_cons_self
      · exact ⟨a, List.mem_cons_self, Ne.symm hua⟩
    obtain ⟨huw, hwu⟩ := (h.mem_iff hc hu w).mp hw
    rcases Relation.ReflTransGen.cases_head huw with heq | ⟨v, harrow, hvw⟩
    · exact absurd heq.symm hne
    · exact ⟨v, (h.mem_iff hc hu v).mpr ⟨.single harrow, hvw.trans hwu⟩, harrow⟩

/-- One closed route passes through all states of a component that contains a cycle. -/
theorem Layered.exists_tour (hg : g.WellFormed) (h : g.Layered comps) {c : List StateId} (hc : c ∈ comps)
    (hcyclic : g.isCyclic c = true) {u : StateId} (hu : u ∈ c) :
    ∃ es, es ≠ [] ∧ g.Route u es u ∧ ∀ v ∈ c, ∃ e ∈ es, (g.edge e).source = v := by
  have htour : ∀ l ⊆ c, ∃ es, g.Route u es u ∧ ∀ v ∈ l, ∃ e ∈ es, (g.edge e).source = v := by
    intro l
    induction l with
    | nil => exact fun _ => ⟨[], rfl, fun v hv => absurd hv List.not_mem_nil⟩
    | cons v l ih =>
      intro hsub
      obtain ⟨hv, hsub⟩ := List.cons_subset.mp hsub
      obtain ⟨es, hes, hpass⟩ := ih hsub
      -- to `v`, along an arrow of the component, and back
      obtain ⟨w, hw, k, hk⟩ := h.exists_arrow hg hc hcyclic hv
      obtain ⟨e, he⟩ := Array.mem_iff_getElem?.mp hk
      obtain ⟨there, hthere⟩ := exists_route ((h.mem_iff hc hu v).mp hv).1
      obtain ⟨back, hback⟩ := exists_route ((h.mem_iff hc hu w).mp hw).2
      have hloop : g.Route v (e :: back) u :=
        ⟨lt_of_getElem? he, by rw [edge_eq he], by rw [edge_eq he]; exact hback⟩
      refine ⟨there ++ (e :: back) ++ es, (hthere.append hloop).append hes, fun x hx => ?_⟩
      rcases List.mem_cons.mp hx with rfl | hx
      · exact ⟨e, by simp, hloop.2.1⟩
      · obtain ⟨f, hf, hsource⟩ := hpass x hx
        exact ⟨f, List.mem_append_right _ hf, hsource⟩
  obtain ⟨es, hes, hpass⟩ := htour c (List.Subset.refl c)
  obtain ⟨e, he, -⟩ := hpass u hu
  exact ⟨es, List.ne_nil_of_mem he, hes, hpass⟩

/-- A way back to a state along an arrow shows that its component contains a cycle. -/
theorem Layered.isCyclic_of_return (hg : g.WellFormed) (h : g.Layered comps) {c : List StateId}
    (hc : c ∈ comps) {u v : StateId} (hu : u ∈ c) (harrow : g.Arrow u v)
    (hback : Relation.ReflTransGen g.Arrow v u) : g.isCyclic c = true :=
  isCyclic_of_arrow hg hu ((h.mem_iff hc hu v).mpr ⟨.single harrow, hback⟩) harrow

/-- A route leads to each of its edges and from there to its end. -/
theorem Route.through {u t : StateId} {es : List EdgeId} (h : g.Route u es t) {e : EdgeId} (he : e ∈ es) :
    Relation.ReflTransGen g.Arrow u (g.edge e).source ∧ g.Arrow (g.edge e).source (g.edge e).target ∧
      Relation.ReflTransGen g.Arrow (g.edge e).target t := by
  induction es generalizing u with
  | nil => exact absurd he List.not_mem_nil
  | cons f es ih =>
    obtain ⟨hf, rfl, hrest⟩ := h
    have harrow : g.Arrow (g.edge f).source (g.edge f).target := ⟨(g.edge f).kind, edge_mem hf⟩
    rcases List.mem_cons.mp he with rfl | he
    · exact ⟨.refl, harrow, hrest.walk.path⟩
    · obtain ⟨hto, hthrough⟩ := ih hrest he
      exact ⟨.head harrow hto, hthrough⟩

/-! ### Cyclic regions -/

/-- The lists are those components whose states a closed route passes. -/
structure Regions (g : Graph) (comps regions : List (List StateId)) : Prop where
  /-- A closed route of at least one edge passes through the states of a list. -/
  mem_iff : ∀ c, c ∈ regions ↔ c ∈ comps ∧
    ∃ u es, es ≠ [] ∧ g.Route u es u ∧ ∀ v ∈ c, ∃ e ∈ es, (g.edge e).source = v
  /-- A closed route of at least one edge starts in one of the lists. -/
  passed : ∀ u es, es ≠ [] → g.Route u es u → ∃ c ∈ regions, u ∈ c
  /-- The smallest states of the lists are in increasing order. -/
  order : regions.Pairwise fun c d => ∃ u ∈ c, ∀ v ∈ d, u < v
  /-- There are no lists if no route of at least one edge is closed. -/
  eq_nil_iff : regions = [] ↔ ∀ u es, g.Route u es u → es = []

theorem mem_cyclicRegions (g : Graph) (c : List StateId) :
    c ∈ g.cyclicRegions ↔ c ∈ g.components ∧ g.isCyclic c = true := by
  rw [cyclicRegions, List.mem_mergeSort, List.mem_filter]

/-- The smallest states of the cyclic regions increase: regions are sorted by their first states, which are
the smallest, and no two of them have a state in common. -/
theorem cyclicRegions_order (hg : g.WellFormed) :
    g.cyclicRegions.Pairwise fun c d => ∃ u ∈ c, ∀ v ∈ d, u < v := by
  obtain ⟨hl, -⟩ := layered_components hg
  have hcond := condensation_components hg
  have hle : g.cyclicRegions.Pairwise fun c d => decide (c.headD 0 ≤ d.headD 0) = true := by
    rw [cyclicRegions]
    refine List.pairwise_mergeSort (fun a b c hab hbc => ?_) (fun a b => ?_) _
    · exact decide_eq_true (Nat.le_trans (of_decide_eq_true hab) (of_decide_eq_true hbc))
    · rw [Bool.or_eq_true, decide_eq_true_eq, decide_eq_true_eq]
      exact Nat.le_total _ _
  have hne : g.cyclicRegions.Pairwise (· ≠ ·) := by
    have hnodup : g.components.Nodup := by
      refine (ranked_components hg).order.imp fun {c d} hlater => ?_
      rintro rfl
      exact not_later_of_later g.finishingOrder_traversal.choose_spec.nodup hlater hlater
    exact (List.mergeSort_perm _ _).nodup_iff.mpr (hnodup.filter _)
  refine List.Pairwise.imp_of_mem (fun {c d} hc hd h => ?_) (hle.and hne)
  obtain ⟨hle, hne⟩ := h
  have hc' := ((mem_cyclicRegions g c).mp hc).1
  have hd' := ((mem_cyclicRegions g d).mp hd).1
  obtain ⟨u, c', rfl⟩ := List.exists_cons_of_ne_nil (hcond.ne_nil c hc')
  refine ⟨u, List.mem_cons_self, fun v hv => Nat.lt_of_le_of_ne ?_ ?_⟩
  · obtain ⟨w, d', rfl⟩ := List.exists_cons_of_ne_nil (hcond.ne_nil d hd')
    have hle : u ≤ w := of_decide_eq_true hle
    rcases List.mem_cons.mp hv with rfl | hv
    · exact hle
    · exact Nat.le_trans hle (Nat.le_of_lt ((List.pairwise_cons.mp (hcond.ascending _ hd')).1 v hv))
  · rintro rfl
    exact hne (hl.eq_of_mem hc' hd' List.mem_cons_self hv)

theorem regions_cyclicRegions (hg : g.WellFormed) : g.Regions g.components g.cyclicRegions := by
  obtain ⟨hl, hall⟩ := layered_components hg
  have hpassed : ∀ u es, es ≠ [] → g.Route u es u → ∃ c ∈ g.cyclicRegions, u ∈ c := by
    intro u es hne hes
    obtain ⟨e, he⟩ := List.exists_mem_of_ne_nil es hne
    obtain ⟨hto, harrow, hback⟩ := hes.through he
    -- the edge leads back to its source by way of `u`
    obtain ⟨c, hc, hsource⟩ := hall _ (hg.source_lt _ harrow.choose_spec)
    have hu := (hl.mem_iff hc hsource u).mpr ⟨.head harrow hback, hto⟩
    have hcyclic := hl.isCyclic_of_return hg hc hsource harrow (hback.trans hto)
    exact ⟨c, (mem_cyclicRegions g c).mpr ⟨hc, hcyclic⟩, hu⟩
  refine ⟨fun c => ?_, hpassed, cyclicRegions_order hg, fun hnil u es hes => ?_, fun hacyclic => ?_⟩
  · rw [mem_cyclicRegions]
    refine and_congr_right fun hc => ⟨fun hcyclic => ?_, fun ⟨u, es, _, hes, hpass⟩ => ?_⟩
    · obtain ⟨u, hu⟩ := List.exists_mem_of_ne_nil c (hl.isComponent hg hc).ne_nil
      obtain ⟨es, hne, hes, hpass⟩ := hl.exists_tour hg hc hcyclic hu
      exact ⟨u, es, hne, hes, hpass⟩
    · obtain ⟨v, hv⟩ := List.exists_mem_of_ne_nil c (hl.isComponent hg hc).ne_nil
      obtain ⟨e, he, rfl⟩ := hpass v hv
      obtain ⟨hto, harrow, hback⟩ := hes.through he
      exact hl.isCyclic_of_return hg hc hv harrow (hback.trans hto)
  · by_contra hne
    obtain ⟨c, hc, -⟩ := hpassed u es hne hes
    rw [hnil] at hc
    exact absurd hc List.not_mem_nil
  · refine List.eq_nil_iff_forall_not_mem.mpr fun c hc => ?_
    obtain ⟨hc, hcyclic⟩ := (mem_cyclicRegions g c).mp hc
    obtain ⟨u, hu⟩ := List.exists_mem_of_ne_nil c (hl.isComponent hg hc).ne_nil
    obtain ⟨es, hne, hes, -⟩ := hl.exists_tour hg hc hcyclic hu
    exact hne (hacyclic u es hes)

/-- A single search over the states and their distinct successors, both in increasing order, completes the
components in the order in which they are listed. They partition the states, successors first, and the
cyclic regions are those of them that closed routes pass through. -/
theorem components_and_cyclicRegions (hg : g.WellFormed) :
    (∀ u, (neighbours g.adjacency u).Pairwise (· < ·) ∧ ∀ v, v ∈ neighbours g.adjacency u ↔ g.Arrow u v) ∧
      g.components =
        ((Tarjan.search g.adjacency (List.range g.size) {}).found.map (·.mergeSort (· ≤ ·))).reverse ∧
      g.Condensation g.components ∧ g.Regions g.components g.cyclicRegions :=
  ⟨fun u => ⟨g.ascending_neighbours u, mem_neighbours_adjacency hg u⟩, components_eq_search hg,
    condensation_components hg, regions_cyclicRegions hg⟩

/-- A state with an edge to itself is a cyclic region. -/
theorem components_and_cyclicRegions_of_loop :
    ((Graph.seed .reset).link ⟨0, 0, .push⟩).cyclicRegions ≠ [] ∧
      ∃ c ∈ ((Graph.seed .reset).link ⟨0, 0, .push⟩).components, 0 ∈ c := by
  have hlt : 0 < (Graph.seed .reset).size := by decide
  have hg : ((Graph.seed .reset).link ⟨0, 0, .push⟩).WellFormed :=
    (wellFormed_seed .reset).link hlt hlt (Array.not_mem_empty _)
  obtain ⟨-, -, hcond, hregions⟩ := components_and_cyclicRegions hg
  have hloop : ((Graph.seed .reset).link ⟨0, 0, .push⟩).Route 0 [0] 0 := ⟨Nat.zero_lt_one, rfl, rfl⟩
  refine ⟨fun hnil => ?_, ?_⟩
  · exact absurd (hregions.eq_nil_iff.mp hnil 0 [0] hloop) (List.cons_ne_nil 0 [])
  · obtain ⟨c, hc, hmem, -⟩ := (hcond.together 0 hlt 0 hlt).mpr ⟨.refl, .refl⟩
    exact ⟨c, hc, hmem⟩

end Graph

end StackDepth
