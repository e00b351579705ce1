import Mathlib
import StackDepth.Proofs.Graph.Components
import StackDepth.Proofs.Graph.Route

/-!
# Potentials in a component

Spreading potentials from the first state of a component gives every state the weight of some walk from
the first state, and the edges through which states are reached are a search tree that agrees with the
potentials. If no edge breaks the rule, the potentials of the whole component agree with all edges
inside. If an edge breaks the rule, two walks to its target have different weights.

Main statements:

* `Graph.spreadEdges_spec`: the edges of one state;
* `Graph.spread_spec`: all states of a component.
-/

namespace StackDepth

namespace Graph

/-! ### Assigning a potential -/

theorem Potentials.has_assign {p : Potentials} {t : StateId} (ht : t < p.value.size) (v : Int)
    (via : Option EdgeId) (s : StateId) :
    (p.assign t v via).has s = true ↔ s = t ∨ p.has s = true := by
  by_cases hst : t = s
  · subst hst
    simp [Potentials.has, Potentials.assign, Array.getD_eq_getD_getElem?, ht]
  · simp [Potentials.has, Potentials.assign, Array.getD_eq_getD_getElem?,
      Array.getElem?_setIfInBounds_ne hst, Ne.symm hst]

theorem Potentials.get_assign {p : Potentials} {t : StateId} (ht : t < p.value.size) (v : Int)
    (via : Option EdgeId) (s : StateId) :
    (p.assign t v via).get s = if s = t then v else p.get s := by
  by_cases hst : t = s
  · subst hst
    simp [Potentials.get, Potentials.assign, Array.getD_eq_getD_getElem?, ht]
  · simp [Potentials.get, Potentials.assign, Array.getD_eq_getD_getElem?,
      Array.getElem?_setIfInBounds_ne hst, Ne.symm hst]

theorem Potentials.size_assign (p : Potentials) (t : StateId) (v : Int) (via : Option EdgeId) :
    (p.assign t v via).value.size = p.value.size := by
  simp [Potentials.assign]

theorem Potentials.via_assign (p : Potentials) {t s : StateId} (hst : s ≠ t) (v : Int)
    (via : Option EdgeId) : (p.assign t v via).via.getD s none = p.via.getD s none := by
  simp [Potentials.assign, Array.getD_eq_getD_getElem?, Array.getElem?_setIfInBounds_ne (Ne.symm hst)]

variable {g : Graph}

/-- The states of a component that have a potential. -/
def Spanned (c : List StateId) (p : Potentials) (t : StateId) : Prop := t ∈ c ∧ p.has t = true

theorem spanned_assign {c : List StateId} {p : Potentials} {t : StateId} (ht : t < p.value.size)
    (htc : t ∈ c) (v : Int) (via : Option EdgeId) (u : StateId) :
    Spanned c (p.assign t v via) u ↔ u = t ∨ Spanned c p u := by
  unfold Spanned
  rw [Potentials.has_assign ht]
  constructor
  · rintro ⟨huc, rfl | hu⟩
    · exact .inl rfl
    · exact .inr ⟨huc, hu⟩
  · rintro (rfl | ⟨huc, hu⟩)
    · exact ⟨htc, .inl rfl⟩
    · exact ⟨huc, .inr hu⟩

/-- Only the state that is assigned a potential changes. -/
theorem Potentials.assign_outside {c : List StateId} {p : Potentials} {t : StateId}
    (ht : t < p.value.size) (htc : t ∈ c) (v : Int) (via : Option EdgeId) {u : StateId} (hu : u ∉ c) :
    (p.assign t v via).get u = p.get u ∧ (p.assign t v via).has u = p.has u := by
  have hne : u ≠ t := fun heq => hu (heq ▸ htc)
  refine ⟨by rw [Potentials.get_assign ht, if_neg hne], ?_⟩
  rw [Bool.eq_iff_iff, Potentials.has_assign ht]
  simp [hne]

/-- Potentials that were spread in the component `c` from `root`: every state of the component that has
one is reached by a walk of that weight, and the other states have what they had in `p₀`. -/
structure Spread (g : Graph) (c : List StateId) (root : StateId) (p₀ p : Potentials) : Prop where
  /-- Every node has a place. -/
  size_eq : p.value.size = g.size
  /-- The first state has a potential. -/
  has_root : p.has root = true
  /-- A potential is the weight of a walk. -/
  walk : ∀ t ∈ c, p.has t = true → g.Walk root t (p.get t)
  /-- The potentials outside of the component stay. -/
  outside : ∀ t, t ∉ c → p.get t = p₀.get t ∧ p.has t = p₀.has t
  /-- Every node has a place on the trail. -/
  via_size : p.via.size = g.size
  /-- The trail is a search tree. -/
  tree : ∃ depth, g.Tree p.via root (Spanned c p) depth
  /-- The edges of the tree agree with the potentials. -/
  via_get : ∀ t e, Spanned c p t → t ≠ root → p.via.getD t none = some e →
    p.get t = p.get (g.edge e).source + (g.edge e).weight

/-- An edge inside the component to a state without a potential makes the tree grow. -/
theorem Spread.assign (hg : g.WellFormed) {c : List StateId} {root : StateId} {p₀ p : Potentials}
    (hp : Spread g c root p₀ p) {e : EdgeId} (he : e < g.edges.size)
    (hsource : Spanned c p (g.edge e).source) (htarget : (g.edge e).target ∈ c)
    (hfresh : p.has (g.edge e).target = false) :
    Spread g c root p₀ (p.assign (g.edge e).target
      (p.get (g.edge e).source + (g.edge e).weight) (some e)) := by
  have hmem : g.edge e ∈ g.edges := edge_mem he
  have hlt : (g.edge e).target < p.value.size := hp.size_eq ▸ hg.target_lt _ hmem
  have hlt' : (g.edge e).target < p.via.size := hp.via_size ▸ hg.target_lt _ hmem
  have hhas := Potentials.has_assign hlt (p.get (g.edge e).source + (g.edge e).weight) (some e)
  have hget := Potentials.get_assign hlt (p.get (g.edge e).source + (g.edge e).weight) (some e)
  have hvia := fun s (hs : s ≠ (g.edge e).target) =>
    p.via_assign hs (p.get (g.edge e).source + (g.edge e).weight) (some e)
  have hnot : ¬ Spanned c p (g.edge e).target := by
    rintro ⟨-, htrue⟩
    exact Bool.false_ne_true (hfresh.symm.trans htrue)
  have hne : ∀ t, Spanned c p t → t ≠ (g.edge e).target := by
    rintro t ht rfl
    exact hnot ht
  have hspanned := spanned_assign hlt htarget (p.get (g.edge e).source + (g.edge e).weight) (some e)
  refine ⟨?_, (hhas root).mpr (.inr hp.has_root), ?_, ?_, ?_, ?_, ?_⟩
  · rw [Potentials.size_assign, hp.size_eq]
  · intro t htc ht
    rw [hget]
    split
    · next heq =>
      subst heq
      exact (hp.walk _ hsource.1 hsource.2).tail hmem
    · next hne => exact hp.walk t htc (((hhas t).mp ht).resolve_left hne)
  · intro t htc
    obtain ⟨hget', hhas'⟩ := Potentials.assign_outside hlt htarget
      (p.get (g.edge e).source + (g.edge e).weight) (some e) htc
    exact ⟨hget'.trans (hp.outside t htc).1, hhas'.trans (hp.outside t htc).2⟩
  · rw [Potentials.assign, Array.size_setIfInBounds, hp.via_size]
  · obtain ⟨depth, htree⟩ := hp.tree
    exact ⟨_, (htree.grow he hsource hnot hlt').congr hspanned⟩
  · intro t f ht hroot hf
    rcases (hspanned t).mp ht with rfl | ht
    · obtain rfl : e = f := by
        simpa [Potentials.assign, Array.getD_eq_getD_getElem?, hlt'] using hf
      rw [hget, if_pos rfl, hget, if_neg (hne _ hsource)]
    · rw [hvia t (hne t ht)] at hf
      obtain ⟨depth, htree⟩ := hp.tree
      obtain ⟨f', hf', -, -, hknown, -⟩ := htree.parent t ht hroot
      obtain rfl := Option.some.inj (hf.symm.trans hf')
      rw [hget, if_neg (hne t ht), hget, if_neg (hne _ hknown)]
      exact hp.via_get t f ht hroot hf

/-- Potentials that have been assigned stay. -/
def Potentials.Extends (p q : Potentials) : Prop :=
  ∀ t, p.has t = true → q.has t = true ∧ q.get t = p.get t

theorem Potentials.Extends.refl (p : Potentials) : p.Extends p := fun _ h => ⟨h, rfl⟩

theorem Potentials.Extends.trans {p q r : Potentials} (hpq : p.Extends q) (hqr : q.Extends r) :
    p.Extends r := by
  intro t ht
  obtain ⟨hq, hget⟩ := hpq t ht
  obtain ⟨hr, hget'⟩ := hqr t hq
  exact ⟨hr, hget'.trans hget⟩

/-- An edge that breaks the rule: its target has another potential than the edge asks for. -/
structure Breaks (g : Graph) (c : List StateId) (p : Potentials) (a : Edge) : Prop where
  /-- The edge is one of the graph. -/
  mem_edges : a ∈ g.edges
  /-- Its source has a potential. -/
  source : a.source ∈ c ∧ p.has a.source = true
  /-- Its target has a potential. -/
  target : a.target ∈ c ∧ p.has a.target = true
  /-- The potentials do not agree with the weight of the edge. -/
  ne : p.get a.target ≠ p.get a.source + a.weight

/-- What comes of following the edges of one state. -/
def SpreadsEdges (g : Graph) (c : List StateId) (root : StateId) (p₀ p : Potentials) (u : StateId)
    (es : List EdgeId) (gained : List StateId) :
    Except (EdgeId × Potentials) (Potentials × List StateId) → Prop
  | .error (e, q) => Spread g c root p₀ q ∧ e < g.edges.size ∧ Breaks g c q (g.edge e)
  | .ok (q, gained') => Spread g c root p₀ q ∧ p.Extends q ∧
      (∃ new, gained' = new ++ gained ∧ new.Nodup ∧ (∀ t ∈ new, t ∈ c ∧ p.has t = false) ∧
        ∀ t, q.has t = true ↔ p.has t = true ∨ t ∈ new) ∧
      ∀ e ∈ es, (g.edge e).target ∈ c →
        q.has (g.edge e).target = true ∧ q.get (g.edge e).target = q.get u + (g.edge e).weight

/-- An edge that agrees with the potentials changes nothing. -/
theorem SpreadsEdges.agree {c : List StateId} {root u : StateId} {p₀ p : Potentials} {e : EdgeId}
    {es : List EdgeId} {gained : List StateId}
    {result : Except (EdgeId × Potentials) (Potentials × List StateId)} (hhas : p.has u = true)
    (he : (g.edge e).target ∈ c → p.has (g.edge e).target = true ∧
      p.get (g.edge e).target = p.get u + (g.edge e).weight)
    (h : SpreadsEdges g c root p₀ p u es gained result) :
    SpreadsEdges g c root p₀ p u (e :: es) gained result := by
  rcases result with ⟨f, q⟩ | ⟨q, gained'⟩
  · exact h
  · obtain ⟨hq, hext, hnew, hall⟩ := h
    refine ⟨hq, hext, hnew, fun f hf htarget => ?_⟩
    rcases List.mem_cons.mp hf with rfl | hf
    · obtain ⟨ht, hget⟩ := he htarget
      rw [(hext _ ht).2, (hext u hhas).2]
      exact ⟨(hext _ ht).1, hget⟩
    · exact hall f hf htarget

/-- An edge to a state without a potential assigns it one. -/
theorem SpreadsEdges.assign {c : List StateId} {root u : StateId} {p₀ p : Potentials} {e : EdgeId}
    {es : List EdgeId} {gained : List StateId}
    {result : Except (EdgeId × Potentials) (Potentials × List StateId)} (hhas : p.has u = true)
    (ht : (g.edge e).target ∈ c) (hfresh : p.has (g.edge e).target = false)
    (hlt : (g.edge e).target < p.value.size)
    (h : SpreadsEdges g c root p₀
      (p.assign (g.edge e).target (p.get u + (g.edge e).weight) (some e)) u es
      ((g.edge e).target :: gained) result) :
    SpreadsEdges g c root p₀ p u (e :: es) gained result := by
  have hassign := Potentials.has_assign hlt (p.get u + (g.edge e).weight) (some e)
  have hget := Potentials.get_assign hlt (p.get u + (g.edge e).weight) (some e)
  generalize p.assign (g.edge e).target (p.get u + (g.edge e).weight) (some e) = p₁ at h hassign hget
  have hstep : p.Extends p₁ := by
    intro t htp
    have hne : t ≠ (g.edge e).target := by
      rintro rfl
      exact Bool.false_ne_true (hfresh.symm.trans htp)
    rw [hget, if_neg hne]
    exact ⟨(hassign t).mpr (.inr htp), rfl⟩
  rcases result with ⟨f, q⟩ | ⟨q, gained'⟩
  · exact h
  · obtain ⟨hq, hext, ⟨new, rfl, hnodup, hmem, hhasq⟩, hall⟩ := h
    refine ⟨hq, hstep.trans hext, ⟨new ++ [(g.edge e).target], by simp, ?_, ?_, ?_⟩, ?_⟩
    · refine List.nodup_append.mpr ⟨hnodup, List.nodup_singleton _, fun t htnew s hs hts => ?_⟩
      rw [List.mem_singleton.mp hs] at hts
      have hnone := (hmem t htnew).2
      rw [(hassign t).mpr (.inl hts)] at hnone
      exact Bool.false_ne_true hnone.symm
    · intro t htnew
      rcases List.mem_append.mp htnew with htnew | htnew
      · refine ⟨(hmem t htnew).1, Bool.eq_false_of_not_eq_true fun htp => ?_⟩
        have hnone := (hmem t htnew).2
        rw [(hstep t htp).1] at hnone
        exact Bool.false_ne_true hnone.symm
      · rw [List.mem_singleton.mp htnew]
        exact ⟨ht, hfresh⟩
    · intro t
      rw [hhasq, hassign, List.mem_append, List.mem_singleton]
      tauto
    · intro f hf htarget
      rcases List.mem_cons.mp hf with rfl | hf
      · have htarget₁ := (hassign (g.edge f).target).mpr (.inl rfl)
        have hne : u ≠ (g.edge f).target := by
          rintro rfl
          exact Bool.false_ne_true (hfresh.symm.trans hhas)
        rw [(hext _ htarget₁).2, (hext u (hstep u hhas).1).2, hget, if_pos rfl, hget, if_neg hne]
        exact ⟨(hext _ htarget₁).1, rfl⟩
      · exact hall f hf htarget

/-- Following the edges of a state keeps the potentials in order, or finds an edge that breaks the
rule. -/
theorem spreadEdges_spec (hg : g.WellFormed) {c : List StateId} {inside : StateId → Bool}
    (hinside : ∀ t, inside t = true ↔ t ∈ c) {root u : StateId} {p₀ p : Potentials}
    (hp : Spread g c root p₀ p) (hu : u ∈ c) (hhas : p.has u = true) {es : List EdgeId}
    (hes : ∀ e ∈ es, ∃ a, g.edges[e]? = some a ∧ a.source = u) (gained : List StateId) :
    SpreadsEdges g c root p₀ p u es gained (g.spreadEdges inside u es p gained) := by
  induction es generalizing p gained with
  | nil =>
    exact ⟨hp, .refl p, ⟨[], rfl, List.nodup_nil, fun t ht => absurd ht List.not_mem_nil, by simp⟩,
      fun e he => absurd he List.not_mem_nil⟩
  | cons e es ih =>
    obtain ⟨a, ha, hsource⟩ := hes e List.mem_cons_self
    have hrest : ∀ f ∈ es, ∃ b, g.edges[f]? = some b ∧ b.source = u :=
      fun f hf => hes f (List.mem_cons_of_mem _ hf)
    have hmem : a ∈ g.edges := Array.mem_of_getElem? ha
    have hedge : e < g.edges.size := lt_of_getElem? ha
    rw [← edge_eq ha] at hmem hsource
    clear ha
    rw [spreadEdges]
    split
    · next hout =>
      have hout' : (g.edge e).target ∉ c := by simpa [← hinside] using hout
      exact (ih hp hhas hrest gained).agree hhas fun h => absurd h hout'
    · next hin =>
      have hin' : (g.edge e).target ∈ c := by simpa [← hinside] using hin
      have hlt : (g.edge e).target < p.value.size := by
        rw [hp.size_eq]
        exact hg.target_lt _ hmem
      split
      · next hfresh =>
        have hfresh' : p.has (g.edge e).target = false := by simpa using hfresh
        have hassign := Potentials.has_assign hlt (p.get u + (g.edge e).weight) (some e)
        have hgrown := hp.assign hg hedge ⟨hsource.symm ▸ hu, hsource.symm ▸ hhas⟩ hin' hfresh'
        rw [hsource] at hgrown
        exact (ih hgrown ((hassign u).mpr (.inr hhas)) hrest _).assign hhas hin' hfresh' hlt
      · next hold =>
        have hold' : p.has (g.edge e).target = true := by simpa using hold
        split
        · next hne =>
          exact ⟨hp, hedge, hmem, hsource.symm ▸ ⟨hu, hhas⟩, ⟨hin', hold'⟩, hsource.symm ▸ hne⟩
        · next heq =>
          have heq' : p.get (g.edge e).target = p.get u + (g.edge e).weight := by simpa using heq
          exact (ih hp hhas hrest gained).agree hhas fun _ => ⟨hold', heq'⟩

/-! ### All states of a component -/

/-- A component among states that were processed before: its edges stay inside or lead to these. -/
structure Component (g : Graph) (earlier : StateId → Prop) (c : List StateId) : Prop where
  /-- The component has a state. -/
  nonempty : c ≠ []
  /-- No state is listed twice. -/
  nodup : c.Nodup
  /-- Its states are nodes. -/
  lt : ∀ u ∈ c, u < g.size
  /-- Its states lead to each other. -/
  strong : ∀ u ∈ c, ∀ v ∈ c, Relation.ReflTransGen g.Arrow u v
  /-- Its states are new. -/
  fresh : ∀ u ∈ c, ¬ earlier u
  /-- Its edges stay inside or lead to earlier states. -/
  target : ∀ u ∈ c, ∀ v, g.Arrow u v → v ∈ c ∨ earlier v
  /-- The edges of earlier states lead to earlier states. -/
  closed : ∀ u v, earlier u → g.Arrow u v → earlier v

/-- The potentials agree with the edges of `u` that stay in the component. -/
def AgreesAt (g : Graph) (c : List StateId) (p : Potentials) (u : StateId) : Prop :=
  ∀ a ∈ g.edges, a.source = u → a.target ∈ c →
    p.has a.target = true ∧ p.get a.target = p.get u + a.weight

/-- The state of spreading: the states taken from the queue and those in it have potentials, and the
edges of the former agree with them. -/
structure Spreading (g : Graph) (c : List StateId) (root : StateId) (p₀ p : Potentials)
    (queue order : List StateId) : Prop where
  /-- The potentials are in order. -/
  spread : Spread g c root p₀ p
  /-- No state is listed twice. -/
  nodup : (order ++ queue).Nodup
  /-- The listed states are those of the component with a potential. -/
  mem_iff : ∀ t, t ∈ order ++ queue ↔ t ∈ c ∧ p.has t = true
  /-- The edges of the states taken from the queue agree with the potentials. -/
  agrees : ∀ u ∈ order, AgreesAt g c p u

/-- What comes of spreading potentials. -/
def Spreads (g : Graph) (c : List StateId) (root : StateId) (p₀ : Potentials) :
    Except (EdgeId × Potentials) (Potentials × List StateId) → Prop
  | .error (e, q) => Spread g c root p₀ q ∧ e < g.edges.size ∧ Breaks g c q (g.edge e)
  | .ok (q, order) => Spread g c root p₀ q ∧ (∀ t, t ∈ order ↔ t ∈ c ∧ q.has t = true) ∧
      ∀ u ∈ order, AgreesAt g c q u

/-- Taking the first state from the queue. -/
theorem Spreading.step (hg : g.WellFormed) {c : List StateId} {root u : StateId} {p₀ p q : Potentials}
    {queue order gained : List StateId} (h : Spreading g c root p₀ p (u :: queue) order)
    (hs : SpreadsEdges g c root p₀ p u (g.outgoing u) [] (.ok (q, gained))) :
    Spreading g c root p₀ q (queue ++ gained.reverse) (u :: order) := by
  obtain ⟨hq, hext, ⟨new, hnew, hnodup, hmem, hhas⟩, hall⟩ := hs
  rw [List.append_nil] at hnew
  subst hnew
  have hlisted : ∀ t, t ∈ (u :: order) ++ (queue ++ gained.reverse) ↔
      t ∈ order ++ u :: queue ∨ t ∈ gained := by
    intro t
    simp only [List.mem_append, List.mem_cons, List.mem_reverse]
    tauto
  refine ⟨hq, ?_, fun t => ?_, fun v hv => ?_⟩
  · have hperm : ((u :: order) ++ (queue ++ gained.reverse)).Perm
        ((order ++ u :: queue) ++ gained) := by
      rw [← List.append_assoc]
      exact ((List.perm_middle.symm.append_right _)).trans
        ((List.reverse_perm gained).append_left _)
    refine hperm.nodup_iff.mpr (List.nodup_append.mpr ⟨h.nodup, hnodup, fun t ht s hs hts => ?_⟩)
    have hsome := ((h.mem_iff t).mp ht).2
    rw [hts, (hmem s hs).2] at hsome
    exact Bool.false_ne_true hsome
  · rw [hlisted, h.mem_iff, hhas]
    constructor
    · rintro (⟨hc, hp⟩ | ht)
      · exact ⟨hc, .inl hp⟩
      · exact ⟨(hmem t ht).1, .inr ht⟩
    · rintro ⟨hc, hp | ht⟩
      · exact .inl ⟨hc, hp⟩
      · exact .inr ht
  · intro a ha hsource htarget
    rcases List.mem_cons.mp hv with rfl | hv
    · obtain ⟨e, he⟩ := Array.mem_iff_getElem?.mp ha
      have hedge := hall e ((hg.mem_outgoing _ e).mpr ⟨a, he, hsource⟩)
      rw [edge_eq he] at hedge
      exact hedge htarget
    · obtain ⟨hp, hget⟩ := h.agrees v hv a ha hsource htarget
      have hpv := ((h.mem_iff v).mp (List.mem_append_left _ hv)).2
      rw [(hext _ hp).2, (hext v hpv).2]
      exact ⟨(hext _ hp).1, hget⟩

/-- Spreading potentials over a component ends with potentials of which each is the weight of a walk, and
with which all edges agree; or with an edge that breaks the rule. -/
theorem spread_loop (hg : g.WellFormed) {c : List StateId} {inside : StateId → Bool}
    (hinside : ∀ t, inside t = true ↔ t ∈ c) {root : StateId} {p₀ p : Potentials} {fuel : Nat}
    {queue order : List StateId} (h : Spreading g c root p₀ p queue order)
    (hfuel : c.length < fuel + order.length) :
    Spreads g c root p₀ (g.spread inside fuel queue p order) := by
  induction fuel generalizing p queue order with
  | zero =>
    have hsub : order ⊆ c := fun t ht => ((h.mem_iff t).mp (List.mem_append_left _ ht)).1
    have hnodup : order.Nodup := (List.nodup_append.mp h.nodup).1
    have hle := (List.subperm_of_subset hnodup hsub).length_le
    omega
  | succ fuel ih =>
    cases queue with
    | nil =>
      refine ⟨h.spread, fun t => ?_, fun u hu => h.agrees u (List.mem_reverse.mp hu)⟩
      rw [List.mem_reverse, ← h.mem_iff, List.append_nil]
    | cons u queue =>
      obtain ⟨huc, hhas⟩ := (h.mem_iff u).mp (by simp)
      have hedges := spreadEdges_spec hg hinside h.spread huc hhas
        (fun e he => (hg.mem_outgoing u e).mp he) []
      rw [spread]
      generalize g.spreadEdges inside u (g.outgoing u) p [] = result at hedges ⊢
      rcases result with found | ⟨q, gained⟩
      · exact hedges
      · refine ih (h.step hg hedges) ?_
        rw [List.length_cons]
        omega

/-- Only the first state of the component has a potential. -/
theorem spreading_start {earlier : StateId → Prop} {c : List StateId} (hc : Component g earlier c)
    {root : StateId} (hroot : root ∈ c) {p₀ : Potentials} (hsize : p₀.value.size = g.size)
    (hvia : p₀.via.size = g.size) (hp₀ : ∀ t ∈ c, p₀.has t = false) :
    Spreading g c root p₀ (p₀.assign root 0 none) [root] [] := by
  have hlt : root < p₀.value.size := by
    rw [hsize]
    exact hc.lt root hroot
  have hhas := Potentials.has_assign hlt 0 none
  have hspanned : ∀ t, Spanned c (p₀.assign root 0 none) t ↔ t = root := by
    intro t
    rw [spanned_assign hlt hroot]
    refine or_iff_left ?_
    rintro ⟨htc, ht⟩
    exact Bool.false_ne_true ((hp₀ t htc).symm.trans ht)
  refine ⟨⟨?_, (hhas root).mpr (.inl rfl), fun t htc ht => ?_,
    fun t htc => Potentials.assign_outside hlt hroot 0 none htc, ?_,
    ⟨_, (Tree.start g _ root).congr hspanned⟩, fun t e ht hne => absurd ((hspanned t).mp ht) hne⟩,
    List.nodup_singleton root, fun t => ?_, fun u hu => absurd hu List.not_mem_nil⟩
  · rw [Potentials.size_assign, hsize]
  · obtain rfl := (hspanned t).mp ⟨htc, ht⟩
    rw [Potentials.get_assign hlt, if_pos rfl]
    exact .refl t
  · rw [Potentials.assign, Array.size_setIfInBounds, hvia]
  · rw [List.nil_append, List.mem_singleton]
    exact (hspanned t).symm

/-- The states that have potentials are all of the component, if the edges of each of them lead to such
states: every state that the first one leads to has a potential, or was processed earlier. -/
theorem Component.all_of_agrees {earlier : StateId → Prop} {c order : List StateId} {p : Potentials}
    (hc : Component g earlier c) (hmem : ∀ t, t ∈ order ↔ t ∈ c ∧ p.has t = true)
    (hagrees : ∀ u ∈ order, AgreesAt g c p u) {root : StateId} (hroot : root ∈ order) (t : StateId) :
    t ∈ order ↔ t ∈ c := by
  have hreach : ∀ v, Relation.ReflTransGen g.Arrow root v → v ∈ order ∨ earlier v := by
    intro v hpath
    induction hpath with
    | refl => exact .inl hroot
    | tail _ harrow ih =>
      rcases ih with hin | hearlier
      · rcases hc.target _ ((hmem _).mp hin).1 _ harrow with hvc | hearlier
        · obtain ⟨k, hk⟩ := harrow
          exact .inl ((hmem _).mpr ⟨hvc, (hagrees _ hin _ hk rfl hvc).1⟩)
        · exact .inr hearlier
      · exact .inr (hc.closed _ _ hearlier harrow)
  refine ⟨fun ht => ((hmem t).mp ht).1, fun htc => ?_⟩
  have hpath := hc.strong root ((hmem root).mp hroot).1 t htc
  exact (hreach t hpath).resolve_right (hc.fresh t htc)

/-- What processing a component finds: potentials of all its states with which all its edges agree, or
two walks of different weights between two of its states. -/
theorem spread_spec (hg : g.WellFormed) {earlier : StateId → Prop} {c : List StateId}
    (hc : Component g earlier c) {inside : StateId → Bool} (hinside : ∀ t, inside t = true ↔ t ∈ c)
    {root : StateId} (hroot : root ∈ c) {p₀ : Potentials} (hsize : p₀.value.size = g.size)
    (hvia : p₀.via.size = g.size) (hp₀ : ∀ t ∈ c, p₀.has t = false) :
    match g.spread inside (c.length + 1) [root] (p₀.assign root 0 none) [] with
    | .error (e, q) => Spread g c root p₀ q ∧ e < g.edges.size ∧ Breaks g c q (g.edge e)
    | .ok (q, order) => Spread g c root p₀ q ∧ (∀ t, t ∈ order ↔ t ∈ c) ∧
        (∀ t ∈ c, q.has t = true) ∧ ∀ u ∈ c, AgreesAt g c q u := by
  have hfuel : c.length < c.length + 1 + ([] : List StateId).length := by simp
  have hspreads := spread_loop hg hinside (spreading_start hc hroot hsize hvia hp₀) hfuel
  generalize g.spread inside (c.length + 1) [root] (p₀.assign root 0 none) [] = result at hspreads ⊢
  rcases result with ⟨e, q⟩ | ⟨q, order⟩
  · exact hspreads
  · obtain ⟨hq, hmem, hagrees⟩ := hspreads
    have hall := hc.all_of_agrees hmem hagrees ((hmem root).mpr ⟨hroot, hq.has_root⟩)
    refine ⟨hq, hall, fun t htc => ((hmem t).mp ((hall t).mpr htc)).2, fun u hu => ?_⟩
    exact hagrees u ((hall u).mpr hu)

end Graph

end StackDepth
