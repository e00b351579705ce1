import Mathlib
import StackDepth.Proofs.Graph.Route

/-!
# Shortest paths

A search from one state to another takes the states from its queue in the order in which it reached them.
So it reaches them layer by layer: the queue holds states of two neighbouring depths at most, the lower
ones first, and whatever is one edge behind a state that was taken lies at most one layer further. When
the target is found, no path to it can be shorter than its depth.

The search and the way back along the trail are bounded in number of steps where they are defined. The
relations `Graph.Searches` and `Graph.Retraces` describe the same two loops without a bound, and the bounds
are never met.

* `Graph.Levels.lt_length`: paths to states that are not reached yet are longer than the queue is deep;
* `Graph.searchTrail_levels`: the search ends by itself, and its trail is as short as any path;
* `Graph.Tree.exists_retraces`: so does the way back, which visits no state twice;
* `Graph.shortestPath_shortest`: what comes of the search in all cases.
-/

namespace StackDepth

namespace Graph

variable {g : Graph} {allowed : StateId → Bool} {src dst u : StateId} {trail : Trail}
  {depth : StateId → Nat} {done queue : List StateId}

/-! ### Paths of allowed states -/

/-- A route that enters allowed states only. -/
def Passes (g : Graph) (allowed : StateId → Bool) (u : StateId) (es : List EdgeId) (v : StateId) : Prop :=
  g.Route u es v ∧ ∀ e ∈ es, allowed (g.edge e).target = true

theorem passes_cons {e : EdgeId} {es : List EdgeId} {v : StateId} (h : g.Passes allowed u (e :: es) v) :
    g.AllowedArrow allowed u (g.edge e).target ∧ g.Passes allowed (g.edge e).target es v := by
  obtain ⟨⟨he, rfl, hrest⟩, hall⟩ := h
  have harrow : g.Arrow (g.edge e).source (g.edge e).target := ⟨_, edge_mem he⟩
  exact ⟨⟨harrow, hall e List.mem_cons_self⟩, hrest, fun f hf => hall f (List.mem_cons_of_mem e hf)⟩

theorem Passes.path {es : List EdgeId} {v : StateId} (h : g.Passes allowed u es v) :
    Relation.ReflTransGen (g.AllowedArrow allowed) u v := by
  induction es generalizing u with
  | nil =>
    obtain rfl : u = v := h.1
    exact .refl
  | cons e es ih =>
    obtain ⟨harrow, hrest⟩ := passes_cons h
    exact .head harrow (ih hrest)

/-! ### Layers -/

/-- The states are reached layer by layer. -/
structure Levels (g : Graph) (allowed : StateId → Bool) (src : StateId) (trail : Trail)
    (depth : StateId → Nat) (done queue : List StateId) : Prop where
  /-- The trail leads every state back, through one layer after the other. -/
  tree : g.Tree trail src (Known trail src) depth
  /-- Lower layers are first in the queue. -/
  sorted : queue.Pairwise fun u v => depth u ≤ depth v
  /-- No state lies two layers behind one that waits. -/
  span : ∀ u ∈ queue, ∀ t, Known trail src t → depth t ≤ depth u + 1
  /-- Nor behind one that it follows. -/
  settled : ∀ u ∈ done, ∀ v, g.AllowedArrow allowed u v → depth v ≤ depth u + 1

/-- The depths of the states that are gained from `u`. -/
theorem extendTrail_levels (hg : g.WellFormed) (dst : StateId) {es : List EdgeId}
    (h : g.Reaching allowed src trail) (htree : g.Tree trail src (Known trail src) depth)
    (hu : Known trail src u) (hes : ∀ e ∈ es, e < g.edges.size ∧ (g.edge e).source = u)
    (gained : List StateId) :
    ∃ depth', g.Tree (g.extendTrail allowed src dst es trail gained).1 src
        (Known (g.extendTrail allowed src dst es trail gained).1 src) depth' ∧
      (∀ t, Known trail src t → depth' t = depth t) ∧
      ∀ t, Known (g.extendTrail allowed src dst es trail gained).1 src t →
        Known trail src t ∨ depth' t = depth u + 1 := by
  induction es generalizing trail depth gained with
  | nil => exact ⟨depth, htree, fun t _ => rfl, fun t ht => .inl ht⟩
  | cons e es ih =>
    obtain ⟨he, hsource⟩ := hes e List.mem_cons_self
    have hrest : ∀ f ∈ es, f < g.edges.size ∧ (g.edge f).source = u :=
      fun f hf => hes f (List.mem_cons_of_mem e hf)
    have hlt : (g.edge e).target < trail.size := h.size_eq ▸ hg.target_lt _ (edge_mem he)
    have hknown := known_setIfInBounds src hlt e
    have hknownSource : Known trail src (g.edge e).source := hsource ▸ hu
    rcases g.extendTrail_cases allowed src dst e es trail gained with
      ⟨-, heq⟩ | ⟨⟨hfresh, hallowed⟩, hcases⟩
    · rw [heq]
      exact ih h htree hu hrest gained
    · have htree' := (htree.grow he hknownSource hfresh hlt).congr hknown
      have hold : ∀ t, Known trail src t →
          Function.update depth (g.edge e).target (depth (g.edge e).source + 1) t = depth t := by
        intro t ht
        have hnet : t ≠ (g.edge e).target := by
          rintro rfl
          exact hfresh ht
        exact Function.update_of_ne hnet _ _
      have hgain : Function.update depth (g.edge e).target (depth (g.edge e).source + 1)
          (g.edge e).target = depth u + 1 := by
        rw [Function.update_self, hsource]
      rcases hcases with ⟨hdst, heq⟩ | ⟨-, heq⟩
      · rw [heq, ← hdst]
        refine ⟨_, htree', hold, fun t ht => ?_⟩
        rcases (hknown t).mp ht with rfl | ht
        · exact .inr hgain
        · exact .inl ht
      · have hgrown := h.grow hg he hknownSource hfresh hallowed
        obtain ⟨depth', htree'', hold', hgain'⟩ := ih hgrown htree' ((hknown u).mpr (.inr hu)) hrest
          ((g.edge e).target :: gained)
        rw [heq]
        refine ⟨depth', htree'', fun t ht => ?_, fun t ht => ?_⟩
        · rw [hold' t ((hknown t).mpr (.inr ht)), hold t ht]
        · rw [hold u hu] at hgain'
          rcases hgain' t ht with ht | ht
          · rcases (hknown t).mp ht with rfl | ht
            · exact .inr ((hold' _ ((hknown _).mpr (.inl rfl))).trans hgain)
            · exact .inl ht
          · exact .inr ht

/-- Taking the first state from the queue without finding the target. -/
theorem Levels.step {trail' : Trail} {gained : List StateId} {depth' : StateId → Nat}
    (h : g.Levels allowed src trail depth done (u :: queue))
    (hs : g.Searching allowed src dst trail done (u :: queue))
    (hext : g.ExtendsTrail allowed src dst (g.outgoing u) trail [] (trail', gained, false))
    (hs' : g.Searching allowed src dst trail' (u :: done) (queue ++ gained.reverse))
    (htree : g.Tree trail' src (Known trail' src) depth')
    (hold : ∀ t, Known trail src t → depth' t = depth t)
    (hgain : ∀ t, Known trail' src t → Known trail src t ∨ depth' t = depth u + 1) :
    g.Levels allowed src trail' depth' (u :: done) (queue ++ gained.reverse) := by
  have hu : Known trail src u := (hs.known_iff u).mpr (by simp)
  have hqueue : ∀ t ∈ queue, Known trail src t ∧ depth u ≤ depth t := by
    intro t ht
    exact ⟨(hs.known_iff t).mpr (by simp [ht]), List.rel_of_pairwise_cons h.sorted ht⟩
  obtain ⟨new, hnew, -, hnot, hiff⟩ := hext.gained_eq
  rw [List.append_nil] at hnew
  dsimp only at hnew hiff
  have hgained : ∀ t ∈ gained, depth' t = depth u + 1 := by
    intro t ht
    rw [hnew] at ht
    exact (hgain t ((hiff t).mpr (.inl ht))).resolve_left (hnot t ht)
  have hle : ∀ t, Known trail' src t → depth' t ≤ depth u + 1 := by
    intro t ht
    rcases hgain t ht with ht | ht
    · rw [hold t ht]
      exact h.span u List.mem_cons_self t ht
    · exact ht.le
  refine ⟨htree, ?_, fun v hv t ht => ?_, fun w hw v harrow => ?_⟩
  · refine List.pairwise_append.mpr ⟨?_, ?_, fun t ht v hv => ?_⟩
    · refine h.sorted.tail.imp_of_mem fun ht hv htv => ?_
      rwa [hold _ (hqueue _ ht).1, hold _ (hqueue _ hv).1]
    · refine List.pairwise_of_forall_mem_list fun t ht v hv => ?_
      rw [hgained t (List.mem_reverse.mp ht), hgained v (List.mem_reverse.mp hv)]
    · rw [hgained v (List.mem_reverse.mp hv)]
      exact hle t ((hiff t).mpr (.inr (hqueue t ht).1))
  · have hge : depth u ≤ depth' v := by
      rcases List.mem_append.mp hv with hv | hv
      · rw [hold v (hqueue v hv).1]
        exact (hqueue v hv).2
      · rw [hgained v (List.mem_reverse.mp hv)]
        exact Nat.le_succ _
    exact (hle t ht).trans (Nat.succ_le_succ hge)
  · have hv : Known trail' src v := hs'.closed w hw v harrow
    rcases List.mem_cons.mp hw with rfl | hw
    · rw [hold w hu]
      exact hle v hv
    · rw [hold w ((hs.known_iff w).mpr (List.mem_append_left _ hw)),
        hold v (hs.closed w hw v harrow)]
      exact h.settled w hw v harrow

/-- A path from a reached state to one that is not reached leads through all layers up to that of the
first state in the queue. -/
theorem Levels.lt_length (h : g.Levels allowed src trail depth done (u :: queue))
    (hs : g.Searching allowed src dst trail done (u :: queue)) {x v : StateId} {es : List EdgeId}
    (hx : Known trail src x) (hes : g.Passes allowed x es v) (hv : ¬ Known trail src v) :
    depth u < depth x + es.length := by
  induction es generalizing x with
  | nil =>
    obtain rfl : x = v := hes.1
    exact absurd hx hv
  | cons e es ih =>
    obtain ⟨harrow, hrest⟩ := passes_cons hes
    rw [List.length_cons]
    rcases List.mem_append.mp ((hs.known_iff x).mp hx) with hdone | hwaits
    · have hnext := ih (hs.closed x hdone _ harrow) hrest
      have hdepth := h.settled x hdone _ harrow
      omega
    · have hdepth : depth u ≤ depth x := by
        rcases List.mem_cons.mp hwaits with rfl | hwaits
        · exact le_rfl
        · exact List.rel_of_pairwise_cons h.sorted hwaits
      omega

/-! ### The search without a bound -/

/-- The search from a queue ends by itself, with this trail if it finds the target. -/
inductive Searches (g : Graph) (allowed : StateId → Bool) (src dst : StateId) :
    List StateId → Trail → Option Trail → Prop where
  /-- The queue is empty. -/
  | drained (trail : Trail) : Searches g allowed src dst [] trail none
  /-- The target is found behind the first state of the queue. -/
  | found {u : StateId} {queue gained : List StateId} {trail trail' : Trail}
      (h : g.extendTrail allowed src dst (g.outgoing u) trail [] = (trail', gained, true)) :
      Searches g allowed src dst (u :: queue) trail (some trail')
  /-- The states behind the first state of the queue wait behind the others. -/
  | next {u : StateId} {queue gained : List StateId} {trail trail' : Trail} {result : Option Trail}
      (h : g.extendTrail allowed src dst (g.outgoing u) trail [] = (trail', gained, false))
      (hrest : Searches g allowed src dst (queue ++ gained.reverse) trail' result) :
      Searches g allowed src dst (u :: queue) trail result

/-- The trail leads back from a state to `src` along these edges, listed forwards. -/
inductive Retraces (g : Graph) (trail : Trail) (src : StateId) : StateId → List EdgeId → Prop where
  /-- The way back ends at `src`. -/
  | here : Retraces g trail src src []
  /-- One edge back. -/
  | back {id : StateId} {e : EdgeId} {es : List EdgeId} (hne : id ≠ src)
      (he : trail.getD id none = some e) (h : Retraces g trail src (g.edge e).source es) :
      Retraces g trail src id (es ++ [e])

/-- The path that a search without a bound finds, the empty one if it finds none. -/
inductive Finds (g : Graph) (allowed : StateId → Bool) (src dst : StateId) : List EdgeId → Prop where
  /-- There is nothing to search. -/
  | same (h : src = dst) : Finds g allowed src dst []
  /-- The search ends without the target. -/
  | missing (hne : src ≠ dst)
      (h : g.Searches allowed src dst [src] (Array.replicate g.size none) none) :
      Finds g allowed src dst []
  /-- The search ends with the target, from which the trail leads back. -/
  | path {trail : Trail} {es : List EdgeId} (hne : src ≠ dst)
      (h : g.Searches allowed src dst [src] (Array.replicate g.size none) (some trail))
      (hback : g.Retraces trail src dst es) : Finds g allowed src dst es

/-- The trail has reached the target, at a depth that no path to it undercuts. -/
structure Nearest (g : Graph) (allowed : StateId → Bool) (src dst : StateId) (trail : Trail)
    (depth : StateId → Nat) : Prop where
  /-- The trail is a tree of allowed states. -/
  reaching : g.Reaching allowed src trail
  /-- It leads every state back, one step of depth at a time. -/
  tree : g.Tree trail src (Known trail src) depth
  /-- The target is reached. -/
  known : Known trail src dst
  /-- No path to the target is shorter than its depth. -/
  minimal : ∀ es, g.Passes allowed src es dst → depth dst ≤ es.length

/-- The search ends by itself, with the target in the first layer where it can be, or without it. -/
theorem searchTrail_levels (hg : g.WellFormed) {fuel : Nat}
    (hs : g.Searching allowed src dst trail done queue)
    (h : g.Levels allowed src trail depth done queue) (hfuel : g.size < fuel + done.length) :
    g.Searches allowed src dst queue trail (g.searchTrail allowed src dst fuel queue trail) ∧
      ∀ trail', g.searchTrail allowed src dst fuel queue trail = some trail' →
        ∃ depth', g.Nearest allowed src dst trail' depth' := by
  induction fuel generalizing trail depth done queue with
  | zero =>
    have hsub : done ⊆ List.range g.size := fun t ht =>
      List.mem_range.mpr (hs.reaching.lt t ((hs.known_iff t).mpr (List.mem_append_left _ ht)))
    have hle := (List.subperm_of_subset (List.nodup_append.mp hs.nodup).1 hsub).length_le
    rw [List.length_range] at hle
    omega
  | succ fuel ih =>
    cases queue with
    | nil => exact ⟨.drained trail, fun trail' hcontra => absurd hcontra (by simp [searchTrail])⟩
    | cons u queue =>
      have hu : Known trail src u := (hs.known_iff u).mpr (by simp)
      have hes : ∀ e ∈ g.outgoing u, e < g.edges.size ∧ (g.edge e).source = u := by
        intro e he
        obtain ⟨a, ha, rfl⟩ := (hg.mem_outgoing u e).mp he
        rw [edge_eq ha]
        exact ⟨lt_of_getElem? ha, rfl⟩
      have hext := extendTrail_spec hg dst hs.reaching
        (fun e he => ⟨(hes e he).1, (hes e he).2 ▸ hu⟩) []
      obtain ⟨depth', htree, hold, hgain⟩ := extendTrail_levels hg dst hs.reaching h.tree hu hes []
      rw [searchTrail]
      generalize hresult : g.extendTrail allowed src dst (g.outgoing u) trail [] = result
        at hext htree hgain ⊢
      obtain ⟨trail', gained, isFound⟩ := result
      cases isFound with
      | true =>
        refine ⟨.found hresult, fun trail'' heq => ⟨depth', ?_⟩⟩
        obtain rfl := Option.some.inj heq
        have hdepth := (hgain dst (hext.found rfl)).resolve_left hs.unfound
        refine ⟨hext.reaching, htree, hext.found rfl, fun es hpasses => ?_⟩
        have hlong := h.lt_length hs (.inl rfl) hpasses hs.unfound
        rw [h.tree.depth_root] at hlong
        omega
      | false =>
        have hs' := hs.step hg hext
        have hrest := ih hs' (h.step hs hext hs' htree hold hgain)
          (by rw [List.length_cons]; omega)
        exact ⟨.next hresult hrest.1, hrest.2⟩

/-! ### The way back -/

/-- The states that a route visits, the first one included. -/
def visited (g : Graph) (src : StateId) (es : List EdgeId) : List StateId :=
  src :: es.map fun e => (g.edge e).target

/-- The trail leads back from a known state, through all layers below it. -/
theorem Tree.exists_retraces {known : StateId → Prop} (h : g.Tree trail src known depth) {t : StateId}
    (ht : known t) : ∃ es, g.Retraces trail src t es ∧
      (g.visited src es).map depth = List.range (depth t + 1) := by
  generalize hn : depth t = n
  induction n generalizing t with
  | zero =>
    by_cases hroot : t = src
    · subst hroot
      exact ⟨[], .here, by simp [visited, hn]⟩
    · obtain ⟨e, -, -, -, -, hdepth⟩ := h.parent t ht hroot
      omega
  | succ n ih =>
    have hroot : t ≠ src := by
      rintro rfl
      have hzero := h.depth_root
      omega
    obtain ⟨e, htrail, -, htarget, hknown, hdepth⟩ := h.parent t ht hroot
    obtain ⟨es, hback, hlayers⟩ := ih hknown (by omega)
    refine ⟨es ++ [e], .back hroot htrail hback, ?_⟩
    rw [List.range_succ, ← hlayers]
    simp [visited, htarget, hn]

theorem Retraces.retrace_eq {t : StateId} {es : List EdgeId} (h : g.Retraces trail src t es)
    {fuel : Nat} (hfuel : es.length < fuel) (path : List EdgeId) :
    g.retrace trail src fuel t path = es ++ path := by
  induction h generalizing fuel path with
  | here =>
    obtain ⟨fuel, rfl⟩ := Nat.exists_eq_add_one_of_ne_zero (Nat.ne_zero_of_lt hfuel)
    rw [retrace, if_pos rfl, List.nil_append]
  | @back id e es hne he _ ih =>
    obtain ⟨fuel, rfl⟩ := Nat.exists_eq_add_one_of_ne_zero (Nat.ne_zero_of_lt hfuel)
    rw [List.length_append, List.length_singleton] at hfuel
    rw [retrace, if_neg hne, he]
    dsimp only
    rw [ih (by omega), List.append_assoc]
    rfl

/-! ### All cases -/

/-- A shortest path of allowed states that visits no state twice. -/
structure Shortest (g : Graph) (allowed : StateId → Bool) (src dst : StateId) (es : List EdgeId) :
    Prop where
  /-- The path has an edge. -/
  ne_nil : es ≠ []
  /-- It leads from the source to the target through allowed states. -/
  passes : g.Passes allowed src es dst
  /-- No such path is shorter. -/
  minimal : ∀ fs, g.Passes allowed src fs dst → es.length ≤ fs.length
  /-- No state is visited twice. -/
  nodup : (g.visited src es).Nodup

theorem levels_start (allowed : StateId → Bool) (hs : g.Searching allowed src dst
    (Array.replicate g.size none) [] [src]) :
    g.Levels allowed src (Array.replicate g.size none) (fun _ => 0) [] [src] := by
  have hknown : ∀ t, Known (Array.replicate g.size none) src t ↔ t = src := by
    intro t
    rw [hs.known_iff, List.nil_append, List.mem_singleton]
  exact ⟨(Tree.start g _ src).congr hknown, List.pairwise_singleton _ src,
    fun _ _ _ _ => Nat.zero_le _, fun u hu => absurd hu List.not_mem_nil⟩

/-- A trail that is as short as any path gives a shortest path. -/
theorem Nearest.shortest (h : g.Nearest allowed src dst trail depth) (hne : src ≠ dst) :
    g.Retraces trail src dst (g.retrace trail src (g.size + 1) dst []) ∧
      g.Shortest allowed src dst (g.retrace trail src (g.size + 1) dst []) := by
  obtain ⟨es, hback, hlayers⟩ := h.tree.exists_retraces h.known
  have hlength : es.length = depth dst := by
    have hcount := congrArg List.length hlayers
    simpa [visited] using hcount
  have hdepth := h.tree.depth_lt h.reaching.lt h.known
  obtain ⟨es', hretrace, hroute, hes⟩ := h.tree.retrace_spec h.known (Nat.lt_succ_of_lt hdepth) []
  have heq := hback.retrace_eq (by omega : es.length < g.size + 1) []
  rw [List.append_nil] at heq hretrace
  obtain rfl : es = es' := heq.symm.trans hretrace
  rw [heq]
  refine ⟨hback, ?_, ⟨hroute, fun e he => ?_⟩, fun fs hfs => ?_, ?_⟩
  · rintro rfl
    exact hne hroute
  · exact h.reaching.allowed _ (hes e he).1 (hes e he).2.1
  · rw [hlength]
    exact h.minimal fs hfs
  · have hnodup : ((g.visited src es).map depth).Nodup := hlayers ▸ List.nodup_range
    exact List.Nodup.of_map depth hnodup

/-- The search for a path ends by itself, whatever states it may enter: all of them, or those that have the
component number of the first one. It gives the empty path from a state to itself, a shortest path that
visits no state twice to any other state that a path leads to, and the empty path if there is none. -/
theorem shortestPath_shortest (hg : g.WellFormed) (allowed : StateId → Bool) (hsrc : src < g.size)
    (dst : StateId) :
    g.Finds allowed src dst (g.shortestPath allowed src dst) ∧
      (src = dst → g.shortestPath allowed src dst = []) ∧
      (src ≠ dst → (∃ es, g.Passes allowed src es dst) →
        g.Shortest allowed src dst (g.shortestPath allowed src dst)) ∧
      ((¬ ∃ es, g.Passes allowed src es dst) → g.shortestPath allowed src dst = []) := by
  by_cases heq : src = dst
  · have hempty : g.shortestPath allowed src dst = [] := by rw [shortestPath, if_pos heq]
    rw [hempty]
    exact ⟨.same heq, fun _ => rfl, fun hne => absurd heq hne, fun _ => rfl⟩
  · have hs := searching_start allowed hsrc heq
    have hfuel : g.size < g.size + 1 + ([] : List StateId).length := by simp
    have hreach := searchTrail_spec hg hs hfuel
    obtain ⟨hends, hnearest⟩ := searchTrail_levels hg hs (levels_start allowed hs) hfuel
    rw [shortestPath, if_neg heq]
    generalize g.searchTrail allowed src dst (g.size + 1) [src] (Array.replicate g.size none) = result
      at hreach hends hnearest ⊢
    cases result with
    | none =>
      refine ⟨.missing heq hends, fun _ => rfl, fun _ hpath => ?_, fun _ => rfl⟩
      obtain ⟨es, hes⟩ := hpath
      exact absurd hes.path hreach
    | some trail =>
      obtain ⟨depth, hdepth⟩ := hnearest trail rfl
      obtain ⟨hback, hshortest⟩ := hdepth.shortest heq
      exact ⟨.path heq hends hback, fun h => absurd h heq, fun _ _ => hshortest,
        fun hnone => absurd ⟨_, hshortest.passes⟩ hnone⟩

/-- Three states, a direct edge from the first one to the last one, and a detour. -/
def detour : Graph :=
  ((((((seed .reset).intern { State.reset with pc := 2#16 }).1.intern
    { State.reset with pc := 4#16 }).1.link ⟨0, 1, .normal⟩).link ⟨1, 2, .push⟩).link ⟨2, 2, .call⟩).link
    ⟨0, 2, .pop⟩

theorem wellFormed_detour : detour.WellFormed := by
  have hstates := ((wellFormed_seed .reset).intern { State.reset with pc := 2#16 }).intern
    { State.reset with pc := 4#16 }
  exact (((hstates.link (by decide +kernel) (by decide +kernel) (by decide +kernel)).link
    (by decide +kernel) (by decide +kernel) (by decide +kernel)).link (by decide +kernel)
    (by decide +kernel) (by decide +kernel)).link (by decide +kernel) (by decide +kernel)
    (by decide +kernel)

/-- Inside the component of the first and the last state the direct edge is taken, and the state between
them is out of reach. -/
theorem shortestPath_shortest_of_detour :
    detour.Shortest (fun t => #[0, 1, 0][t]? == #[0, 1, 0][0]?) 0 2
        (detour.shortestPath (fun t => #[0, 1, 0][t]? == #[0, 1, 0][0]?) 0 2) ∧
      detour.shortestPath (fun t => #[0, 1, 0][t]? == #[0, 1, 0][0]?) 0 1 = [] := by
  have hsrc : 0 < detour.size := by decide +kernel
  obtain ⟨-, -, hpath, -⟩ := shortestPath_shortest wellFormed_detour
    (fun t => #[0, 1, 0][t]? == #[0, 1, 0][0]?) hsrc 2
  have htarget : (detour.edge 3).target = 2 := by decide +kernel
  have hroute : detour.Route 0 [3] 2 := ⟨by decide +kernel, by decide +kernel, htarget⟩
  refine ⟨hpath (by decide) ⟨[3], hroute, fun e he => ?_⟩, by decide +kernel⟩
  rw [List.mem_singleton.mp he, htarget]
  rfl

end Graph

end StackDepth
