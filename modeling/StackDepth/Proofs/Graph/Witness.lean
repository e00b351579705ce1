import Mathlib
import StackDepth.Proofs.Graph.MaxPath

/-!
# The answers come with routes

Besides the depth, the search for the heaviest path gives the edges that show it. Following the exits
from component to component gives a route that weighs the value of its first state. An edge that breaks
the rule gives two closed routes through the first state of its component, whose weights differ by what
the edge breaks the rule by; one of them is a cycle whose weight is not zero.

* `Graph.followExits_spec`: the route of a bound;
* `Graph.Swept.closed_walk`: where all components agree with their potentials, closed walks weigh nothing;
* `Graph.Conflicting.unboundedBy_spec`: the cycle, and the route to it;
* `Graph.maxPath_witnessed`: both answers, with what they exclude.
-/

namespace StackDepth

namespace Graph

variable {g : Graph} {comps : List (List StateId)}

/-! ### A bound -/

/-- A walk leads to components that come no later, and weighs the difference of the potentials if it
stays in one. -/
theorem Swept.walk_weight (hg : g.WellFormed) (hl : g.Layered comps)
    (hall : ∀ u < g.size, ∃ c ∈ comps, u ∈ c) {s : Sweep} (hs : Swept g comps comps.length s)
    {u x : StateId} {w : Int} (h : g.Walk u x w) {i j : Nat} {c d : List StateId}
    (hc : comps[i]? = some c) (hu : u ∈ c) (hd : comps[j]? = some d) (hx : x ∈ d) :
    j ≤ i ∧ (i = j → w = s.potentials.get x - s.potentials.get u) := by
  induction h generalizing i c with
  | refl u =>
    obtain rfl := hl.place_unique hc hd hu hx
    exact ⟨le_rfl, fun _ => (sub_self _).symm⟩
  | @cons u v x k w he _ ih =>
    obtain ⟨b, hb, hv⟩ := hall v (hg.target_lt _ he)
    obtain ⟨l, hl'⟩ := List.mem_iff_getElem?.mp hb
    obtain ⟨i', c', hc', hu', hle⟩ := hl.place_le hl' hv ⟨k, he⟩
    obtain rfl := hl.place_unique hc' hc hu' hu
    obtain ⟨hjl, hweight⟩ := ih hl' hv hx
    refine ⟨hjl.trans hle, fun hij => ?_⟩
    obtain rfl : i' = l := by omega
    obtain rfl : c' = b := Option.some.inj (hc'.symm.trans hl')
    have hlt := (List.getElem?_eq_some_iff.mp hl').1
    have hget : s.potentials.get v = s.potentials.get u + k.weight :=
      (hs.agrees i' hlt c' hl' u hu' _ he rfl hv).2
    have hrest := hweight hij
    omega

/-- Where all components agree with their potentials, closed walks weigh nothing. -/
theorem Swept.closed_walk (hg : g.WellFormed) (hl : g.Layered comps)
    (hall : ∀ u < g.size, ∃ c ∈ comps, u ∈ c) {s : Sweep} (hs : Swept g comps comps.length s)
    {u : StateId} {w : Int} (h : g.Walk u u w) : w = 0 := by
  by_cases hu : u < g.size
  · obtain ⟨c, hc, huc⟩ := hall u hu
    obtain ⟨i, hi⟩ := List.mem_iff_getElem?.mp hc
    rw [(hs.walk_weight hg hl hall h hi huc hi huc).2 rfl, sub_self]
  · cases h with
    | refl => rfl
    | cons he _ => exact absurd (hg.source_lt _ he) hu

/-- Following the exits gives a route that weighs the value of its first state. The exit of a component
leads to an earlier one, so that as many steps as there are components suffice. -/
theorem followExits_spec (hg : g.WellFormed) (hl : g.Layered comps)
    (hall : ∀ u < g.size, ∃ c ∈ comps, u ∈ c) {s : Sweep} (hs : Swept g comps comps.length s)
    {fuel i : Nat} {c : List StateId} {u : StateId} (hc : comps[i]? = some c) (hu : u ∈ c)
    (hfuel : i < fuel) :
    ∃ t, g.Route u (g.followExits (g.componentOf comps) s.exits fuel u) t ∧
      g.weightOf (g.followExits (g.componentOf comps) s.exits fuel u) = s.value.getD u 0 := by
  induction fuel generalizing i c u with
  | zero => omega
  | succ fuel ih =>
    have hi : i < comps.length := (List.getElem?_eq_some_iff.mp hc).1
    have hcomp := hl.component hg hall hc
    have hinside := inside_iff hl hall hc
    have hplace : (g.componentOf comps).getD u 0 = i := by
      rw [Array.getD_eq_getD_getElem?, getElem?_componentOf hl hc hu, Option.getD_some]
    obtain ⟨hstate, hstays, hleaves⟩ := hs.exits i hi c hc
    obtain ⟨hroute, hes⟩ := shortestPath_spec hg (hcomp.lt u hu)
      (exists_inner_path hcomp hinside hu hstate)
    have hweight := weightOf_inner (hs.agrees i hi c hc) hroute hu
      fun e he => (hinside _).mp (hes e he)
    rw [followExits, hplace]
    generalize g.shortestPath (fun t => (g.componentOf comps)[t]? == some i) u
      (s.exits.getD i default).state = within at hroute hweight ⊢
    cases hedge : (s.exits.getD i default).edge with
    | none =>
      refine ⟨_, hroute, ?_⟩
      dsimp only
      rw [hweight, hstays hedge u hu]
    | some e =>
      obtain ⟨hlt, hsource, ⟨j, hj, d, hd, htarget⟩, hvalue⟩ := hleaves e hedge
      obtain ⟨t, hrest, htotal⟩ := ih hd htarget (by omega)
      rw [← hsource] at hroute
      refine ⟨t, hroute.append ⟨hlt, rfl, hrest⟩, ?_⟩
      dsimp only
      rw [weightOf_append, weightOf_cons, htotal, hweight, hvalue u hu, exitWeight]

/-! ### A cycle -/

/-- The route of the search tree to a state with a potential. -/
theorem Spread.retrace_spec {c : List StateId} {root : StateId} {p₀ p : Potentials}
    (hp : Spread g c root p₀ p) (hlt : ∀ u ∈ c, u < g.size) {t : StateId} (ht : Spanned c p t) :
    g.Route root (g.retrace p.via root (g.size + 1) t []) t ∧
      g.weightOf (g.retrace p.via root (g.size + 1) t []) = p.get t - p.get root := by
  obtain ⟨depth, htree⟩ := hp.tree
  have hdepth := htree.depth_lt (fun s hs => hlt s hs.1) ht
  obtain ⟨es, hretrace, hroute, hes⟩ := htree.retrace_spec ht (Nat.lt_succ_of_lt hdepth) []
  rw [List.append_nil] at hretrace
  rw [hretrace]
  refine ⟨hroute, hroute.weightOf_eq (P := fun _ => True) trivial fun e he _ _ => ⟨trivial, ?_⟩⟩
  obtain ⟨hknown, hne, hvia⟩ := hes e he
  exact hp.via_get _ e hknown hne hvia

/-- The witness of a conflict: a cycle through the first state of the component, whose weight is not
zero, and a route to it. -/
theorem Conflicting.unboundedBy_spec (hg : g.WellFormed) (hl : g.Layered comps)
    (hall : ∀ u < g.size, ∃ c ∈ comps, u ∈ c) {conflict : Conflict} {i : Nat} {c : List StateId}
    (h : Conflicting g comps conflict i c) (heden : g.eden < g.size)
    (hreach : Relation.ReflTransGen g.Arrow g.eden conflict.root) :
    ∃ approach cycle, g.unboundedBy (g.componentOf comps) conflict = .unbounded approach cycle ∧
      g.Route g.eden approach conflict.root ∧ (conflict.root = g.eden → approach = []) ∧
      g.Route conflict.root cycle conflict.root ∧ g.weightOf cycle ≠ 0 := by
  have hcomp := hl.component hg hall h.component
  have hinside := inside_iff hl hall h.component
  obtain ⟨p₀, hspread⟩ := h.spread
  obtain ⟨hsource, hsourceWeight⟩ := hspread.retrace_spec hcomp.lt h.breaks.source
  obtain ⟨htarget, htargetWeight⟩ := hspread.retrace_spec hcomp.lt h.breaks.target
  have hback := (shortestPath_spec hg (hcomp.lt _ h.breaks.target.1)
    (exists_inner_path hcomp hinside h.breaks.target.1 h.root_mem)).1
  have happroach : Relation.ReflTransGen (g.AllowedArrow fun _ => true) g.eden conflict.root :=
    hreach.lift id fun _ _ harrow => ⟨harrow, rfl⟩
  refine ⟨_, _, rfl, (shortestPath_spec hg heden happroach).1, fun heq => ?_, ?_⟩
  · rw [shortestPath, if_pos heq.symm]
  · have hplace := getElem?_componentOf hl h.component h.breaks.target.1
    rw [hplace]
    generalize g.shortestPath (fun t => (g.componentOf comps)[t]? == some i)
      (g.edge conflict.edge).target conflict.root = back at hback ⊢
    have hedge : g.Route (g.edge conflict.edge).source (conflict.edge :: back) conflict.root :=
      ⟨h.edge_lt, rfl, hback⟩
    have hround := hsource.append hedge
    have hdirect := htarget.append hback
    split
    · next hzero =>
      refine ⟨hdirect, fun hzero' => h.breaks.ne ?_⟩
      rw [weightOf_append, weightOf_cons, hsourceWeight] at hzero
      rw [weightOf_append, htargetWeight] at hzero'
      omega
    · next hne => exact ⟨hround, hne⟩

/-! ### Both answers -/

/-- The answer is unbounded exactly if some closed walk has a weight that is not zero, and it then shows
such a cycle and a route to it. Otherwise it shows a route from the start state that weighs the depth,
and no route from the start state weighs more. -/
theorem maxPath_witnessed (hg : g.WellFormed) (heden : g.eden < g.size)
    (hreach : ∀ u < g.size, Relation.ReflTransGen g.Arrow g.eden u) :
    ((∃ approach cycle, g.maxPath = .unbounded approach cycle) ↔
      ∃ u es, g.Route u es u ∧ g.weightOf es ≠ 0) ∧
    (∀ approach cycle, g.maxPath = .unbounded approach cycle →
      ∃ u, g.Route g.eden approach u ∧ (u = g.eden → approach = []) ∧
        cycle ≠ [] ∧ g.Route u cycle u ∧ g.weightOf cycle ≠ 0) ∧
    (∀ depth path, g.maxPath = .bounded depth path →
      (∃ t, g.Route g.eden path t) ∧ g.weightOf path = depth ∧
        ∀ t es, g.Route g.eden es t → g.weightOf es ≤ depth) := by
  obtain ⟨hl, hall⟩ := layered_components hg
  have hsweep := sweep_spec hg hl hall (i := 0) List.drop_zero (swept_fresh g g.components)
  have hbounds := maxPath_spec hg heden
  rw [maxPath] at hbounds ⊢
  generalize g.sweep (g.componentOf g.components) 0 g.components
    { potentials := .fresh g.size, value := Array.replicate g.size 0 } = result
    at hsweep hbounds ⊢
  rcases result with conflict | s
  · obtain ⟨i, c, hconflict⟩ := hsweep
    have hlt := (hl.component hg hall hconflict.component).lt _ hconflict.root_mem
    obtain ⟨approach, cycle, heq, happroach, hempty, hcycle, hweight⟩ :=
      hconflict.unboundedBy_spec hg hl hall heden (hreach _ hlt)
    dsimp only
    rw [heq]
    refine ⟨⟨fun _ => ⟨_, cycle, hcycle, hweight⟩, fun _ => ⟨approach, cycle, rfl⟩⟩, ?_, ?_⟩
    · intro approach' cycle' heq'
      obtain ⟨rfl, rfl⟩ := MaxPath.unbounded.inj heq'
      refine ⟨_, happroach, hempty, ?_, hcycle, hweight⟩
      rintro rfl
      exact hweight rfl
    · exact fun depth path hcontra => absurd hcontra (by simp)
  · dsimp only at hsweep hbounds ⊢
    rw [Nat.zero_add] at hsweep
    obtain ⟨c, hc, hec⟩ := hall g.eden heden
    obtain ⟨i, hi⟩ := List.mem_iff_getElem?.mp hc
    have hilt := (List.getElem?_eq_some_iff.mp hi).1
    obtain ⟨t, hroute, hweight⟩ := followExits_spec hg hl hall hsweep hi hec (Nat.lt_succ_of_lt hilt)
    refine ⟨⟨?_, ?_⟩, ?_, ?_⟩
    · rintro ⟨approach, cycle, hcontra⟩
      exact absurd hcontra (by simp)
    · rintro ⟨u, es, hclosed, hne⟩
      exact absurd (hsweep.closed_walk hg hl hall hclosed.walk) hne
    · exact fun approach cycle hcontra => absurd hcontra (by simp)
    · intro depth path heq
      obtain ⟨rfl, rfl⟩ := MaxPath.bounded.inj heq
      exact ⟨⟨t, hroute⟩, hweight, fun t es h => hbounds.2.1 t _ h.walk⟩

/-- A state that pushes a byte and stays where it is has no heaviest path, and the answer shows a cycle
at the start state. -/
theorem maxPath_witnessed_of_loop :
    ∃ cycle, ((Graph.seed .reset).link ⟨0, 0, .push⟩).maxPath = .unbounded [] cycle ∧ cycle ≠ [] ∧
      ((Graph.seed .reset).link ⟨0, 0, .push⟩).Route 0 cycle 0 ∧
      ((Graph.seed .reset).link ⟨0, 0, .push⟩).weightOf cycle ≠ 0 := by
  have hlt : 0 < (Graph.seed .reset).size := by decide
  have hg : ((Graph.seed .reset).link ⟨0, 0, .push⟩).WellFormed :=
    (wellFormed_seed .reset).link hlt hlt (Array.not_mem_empty _)
  have hreach : ∀ u < ((Graph.seed .reset).link ⟨0, 0, .push⟩).size,
      Relation.ReflTransGen ((Graph.seed .reset).link ⟨0, 0, .push⟩).Arrow 0 u := by
    intro u hu
    obtain rfl : u = 0 := Nat.lt_one_iff.mp hu
    exact .refl
  obtain ⟨hiff, hcycle, -⟩ := maxPath_witnessed hg hlt hreach
  obtain ⟨approach, cycle, heq⟩ := hiff.mpr ⟨0, [0], ⟨Nat.zero_lt_one, rfl, rfl⟩, by decide⟩
  obtain ⟨u, happroach, hempty, hne, hclosed, hweight⟩ := hcycle approach cycle heq
  obtain rfl : u = 0 := Nat.lt_one_iff.mp (happroach.walk.lt hg hlt)
  obtain rfl := hempty rfl
  exact ⟨cycle, heq, hne, hclosed, hweight⟩

end Graph

end StackDepth
