import Mathlib
import StackDepth.Graph.MaxPath
import StackDepth.Proofs.Graph.Walk

/-!
# Routes and search trees

A walk has a weight and two ends; a route is the list of edges that it takes. A breadth-first search
records for each state the edge through which it was reached. Such a trail is a tree: the recorded edges
lead back to the first state, and each of them comes from a state that is one step closer to it. So
following the trail back ends after fewer steps than there are states, and gives a route.

* `Graph.Route.walk`: a route is a walk;
* `Graph.Route.weightOf_eq`: along edges that agree with a potential, a route weighs the difference of
  the potentials of its ends;
* `Graph.Tree.retrace_spec`: a trail followed back;
* `Graph.shortestPath_spec`: the search finds a route through allowed states if there is one.
-/

namespace StackDepth

namespace Graph

variable {g : Graph}

/-! ### Routes -/

/-- The edges lead from `u` to `v`, each from where the one before it ended. -/
def Route (g : Graph) : StateId → List EdgeId → StateId → Prop
  | u, [], v => u = v
  | u, e :: es, v => e < g.edges.size ∧ (g.edge e).source = u ∧ g.Route (g.edge e).target es v

@[simp]
theorem weightOf_nil (g : Graph) : g.weightOf [] = 0 := rfl

@[simp]
theorem weightOf_cons (g : Graph) (e : EdgeId) (es : List EdgeId) :
    g.weightOf (e :: es) = (g.edge e).weight + g.weightOf es := rfl

@[simp]
theorem weightOf_append (g : Graph) (es fs : List EdgeId) :
    g.weightOf (es ++ fs) = g.weightOf es + g.weightOf fs := by
  induction es with
  | nil => simp
  | cons e es ih => simp [ih, add_assoc]

theorem Route.append {u v t : StateId} {es fs : List EdgeId} (h : g.Route u es v)
    (h' : g.Route v fs t) : g.Route u (es ++ fs) t := by
  induction es generalizing u with
  | nil =>
    obtain rfl : u = v := h
    exact h'
  | cons e es ih =>
    obtain ⟨he, hsource, hrest⟩ := h
    exact ⟨he, hsource, ih hrest⟩

theorem Route.single {e : EdgeId} (he : e < g.edges.size) :
    g.Route (g.edge e).source [e] (g.edge e).target :=
  ⟨he, rfl, rfl⟩

theorem edge_mem {e : EdgeId} (he : e < g.edges.size) : g.edge e ∈ g.edges :=
  Array.mem_of_getElem? (getElem?_of_lt he)

theorem Route.walk {u v : StateId} {es : List EdgeId} (h : g.Route u es v) :
    g.Walk u v (g.weightOf es) := by
  induction es generalizing u with
  | nil =>
    obtain rfl : u = v := h
    exact .refl u
  | cons e es ih =>
    obtain ⟨he, rfl, hrest⟩ := h
    exact .cons (edge_mem he) (ih hrest)

/-- If the edges of a route keep a property and agree with a potential, the route weighs the difference
of the potentials of its ends. -/
theorem Route.weightOf_eq {P : StateId → Prop} {f : StateId → Int} {u v : StateId}
    {es : List EdgeId} (h : g.Route u es v) (hu : P u)
    (hstep : ∀ e ∈ es, e < g.edges.size → P (g.edge e).source →
      P (g.edge e).target ∧ f (g.edge e).target = f (g.edge e).source + (g.edge e).weight) :
    g.weightOf es = f v - f u := by
  induction es generalizing u with
  | nil =>
    obtain rfl : u = v := h
    rw [weightOf_nil, sub_self]
  | cons e es ih =>
    obtain ⟨he, rfl, hrest⟩ := h
    obtain ⟨htarget, hget⟩ := hstep e List.mem_cons_self he hu
    have htail := ih hrest htarget fun e' he' => hstep e' (List.mem_cons_of_mem _ he')
    rw [weightOf_cons, htail, hget]
    ring

/-! ### Search trees -/

/-- The trail leads every known state back to the root, one step of depth at a time. -/
structure Tree (g : Graph) (trail : Trail) (root : StateId) (known : StateId → Prop)
    (depth : StateId → Nat) : Prop where
  /-- The root is known. -/
  root_known : known root
  /-- The root lies at depth zero. -/
  depth_root : depth root = 0
  /-- Every other known state has an edge from a known state one step higher. -/
  parent : ∀ t, known t → t ≠ root → ∃ e, trail.getD t none = some e ∧ e < g.edges.size ∧
    (g.edge e).target = t ∧ known (g.edge e).source ∧ depth t = depth (g.edge e).source + 1

namespace Tree

variable {trail : Trail} {root : StateId} {known known' : StateId → Prop} {depth : StateId → Nat}

theorem congr (h : g.Tree trail root known depth) (hknown : ∀ t, known' t ↔ known t) :
    g.Tree trail root known' depth where
  root_known := (hknown root).mpr h.root_known
  depth_root := h.depth_root
  parent t ht hne := by
    obtain ⟨e, htrail, he, htarget, hsource, hdepth⟩ := h.parent t ((hknown t).mp ht) hne
    exact ⟨e, htrail, he, htarget, (hknown _).mpr hsource, hdepth⟩

/-- The root alone is a tree. -/
theorem start (g : Graph) (trail : Trail) (root : StateId) :
    g.Tree trail root (· = root) (fun _ => 0) :=
  ⟨rfl, rfl, fun _ ht hne => absurd ht hne⟩

/-- An edge from a known state to one that is not known makes the tree grow. -/
theorem grow (h : g.Tree trail root known depth) {e : EdgeId} (he : e < g.edges.size)
    (hsource : known (g.edge e).source) (htarget : ¬ known (g.edge e).target)
    (hlt : (g.edge e).target < trail.size) :
    g.Tree (trail.setIfInBounds (g.edge e).target (some e)) root
      (fun t => t = (g.edge e).target ∨ known t)
      (Function.update depth (g.edge e).target (depth (g.edge e).source + 1)) := by
  have hne : ∀ t, known t → t ≠ (g.edge e).target := by
    rintro t ht rfl
    exact htarget ht
  refine ⟨.inr h.root_known, ?_, ?_⟩
  · rw [Function.update_of_ne (hne root h.root_known), h.depth_root]
  · intro t ht hroot
    by_cases hte : t = (g.edge e).target
    · subst hte
      refine ⟨e, ?_, he, rfl, .inr hsource, ?_⟩
      · simp [Array.getD_eq_getD_getElem?, hlt]
      · rw [Function.update_self, Function.update_of_ne (hne _ hsource)]
    · obtain ⟨e', htrail, he', htarget', hknown, hdepth⟩ := h.parent t (ht.resolve_left hte) hroot
      refine ⟨e', ?_, he', htarget', .inr hknown, ?_⟩
      · rw [Array.getD_eq_getD_getElem?, Array.getElem?_setIfInBounds_ne (Ne.symm hte),
          ← Array.getD_eq_getD_getElem?, htrail]
      · rw [Function.update_of_ne hte, Function.update_of_ne (hne _ hknown), hdepth]

/-- Every depth up to that of a known state is the depth of some known state. -/
theorem exists_depth_eq (h : g.Tree trail root known depth) {d : Nat} :
    ∀ t, known t → d ≤ depth t → ∃ s, known s ∧ depth s = d := by
  have hdown : ∀ n t, known t → depth t = d + n → ∃ s, known s ∧ depth s = d := by
    intro n
    induction n with
    | zero => exact fun t ht heq => ⟨t, ht, heq⟩
    | succ n ih =>
      intro t ht heq
      have hroot : t ≠ root := by
        rintro rfl
        have hzero := h.depth_root
        omega
      obtain ⟨e, -, -, -, hknown, hdepth⟩ := h.parent t ht hroot
      exact ih _ hknown (by omega)
  intro t ht hle
  exact hdown (depth t - d) t ht (by omega)

/-- A tree is less deep than there are states. -/
theorem depth_lt (h : g.Tree trail root known depth) {n : Nat} (hlt : ∀ t, known t → t < n)
    {t : StateId} (ht : known t) : depth t < n := by
  have hall : ∀ d : Fin (depth t + 1), ∃ s : Fin n, depth s = d := by
    intro d
    obtain ⟨s, hs, heq⟩ := h.exists_depth_eq t ht (Nat.le_of_lt_succ d.isLt)
    exact ⟨⟨s, hlt s hs⟩, heq⟩
  choose f hf using hall
  have hinj : Function.Injective f := by
    intro d d' hdd
    apply Fin.ext
    rw [← hf d, ← hf d', hdd]
  have hcard := Fintype.card_le_of_injective f hinj
  simpa using hcard

/-- Following the trail back from a known state gives the route of the tree to it. -/
theorem retrace_spec (h : g.Tree trail root known depth) {fuel : Nat} {t : StateId} (ht : known t)
    (hfuel : depth t < fuel) (path : List EdgeId) :
    ∃ es, g.retrace trail root fuel t path = es ++ path ∧ g.Route root es t ∧
      ∀ e ∈ es, known (g.edge e).target ∧ (g.edge e).target ≠ root ∧
        trail.getD (g.edge e).target none = some e := by
  induction fuel generalizing t path with
  | zero => omega
  | succ fuel ih =>
    by_cases hroot : t = root
    · subst hroot
      refine ⟨[], ?_, rfl, fun e he => absurd he List.not_mem_nil⟩
      rw [retrace, if_pos rfl]
      rfl
    · obtain ⟨e, htrail, he, rfl, hknown, hdepth⟩ := h.parent t ht hroot
      obtain ⟨es, hretrace, hroute, hes⟩ := ih hknown (by omega) (e :: path)
      refine ⟨es ++ [e], ?_, hroute.append (.single he), fun f hf => ?_⟩
      · rw [retrace, if_neg hroot, htrail]
        dsimp only
        rw [hretrace, List.append_assoc]
        rfl
      · rcases List.mem_append.mp hf with hf | hf
        · exact hes f hf
        · rw [List.mem_singleton.mp hf]
          exact ⟨ht, hroot, htrail⟩

end Tree

/-! ### Searching a path -/

/-- The search has reached a state. -/
def Known (trail : Trail) (src t : StateId) : Prop := t = src ∨ (trail.getD t none).isSome = true

/-- One edge to a state that is allowed. -/
def AllowedArrow (g : Graph) (allowed : StateId → Bool) (u v : StateId) : Prop :=
  g.Arrow u v ∧ allowed v = true

/-- The trail is a tree of allowed states. -/
structure Reaching (g : Graph) (allowed : StateId → Bool) (src : StateId) (trail : Trail) : Prop where
  /-- The trail has an entry for every state. -/
  size_eq : trail.size = g.size
  /-- The trail leads back to the source. -/
  tree : ∃ depth, g.Tree trail src (Known trail src) depth
  /-- Only allowed states are reached. -/
  allowed : ∀ t, Known trail src t → t ≠ src → allowed t = true
  /-- Only states of the graph are reached. -/
  lt : ∀ t, Known trail src t → t < g.size

theorem known_setIfInBounds {trail : Trail} (src : StateId) {t : StateId} (ht : t < trail.size)
    (e : EdgeId) (s : StateId) : Known (trail.setIfInBounds t (some e)) src s ↔ s = t ∨ Known trail src s := by
  unfold Known
  by_cases hst : t = s
  · subst hst
    simp [Array.getD_eq_getD_getElem?, ht]
  · simp [Array.getD_eq_getD_getElem?, Array.getElem?_setIfInBounds_ne hst, Ne.symm hst]

/-- Reaching one more state. -/
theorem Reaching.grow (hg : g.WellFormed) {allowed : StateId → Bool} {src : StateId} {trail : Trail}
    (h : g.Reaching allowed src trail) {e : EdgeId} (he : e < g.edges.size)
    (hsource : Known trail src (g.edge e).source) (htarget : ¬ Known trail src (g.edge e).target)
    (hallowed : allowed (g.edge e).target = true) :
    g.Reaching allowed src (trail.setIfInBounds (g.edge e).target (some e)) := by
  have hlt := hg.target_lt _ (edge_mem he)
  have hlt' : (g.edge e).target < trail.size := h.size_eq ▸ hlt
  have hknown := known_setIfInBounds src hlt' e
  obtain ⟨depth, htree⟩ := h.tree
  refine ⟨?_, ⟨_, (htree.grow he hsource htarget hlt').congr hknown⟩, ?_, ?_⟩
  · rw [Array.size_setIfInBounds, h.size_eq]
  · intro t ht hne
    rcases (hknown t).mp ht with rfl | ht
    · exact hallowed
    · exact h.allowed t ht hne
  · intro t ht
    rcases (hknown t).mp ht with rfl | ht
    · exact hlt
    · exact h.lt t ht

/-- What comes of following the edges `es` of a reached state. -/
structure ExtendsTrail (g : Graph) (allowed : StateId → Bool) (src dst : StateId) (es : List EdgeId)
    (trail : Trail) (gained : List StateId) (result : Trail × List StateId × Bool) : Prop where
  /-- The trail is still a tree of allowed states. -/
  reaching : g.Reaching allowed src result.1
  /-- The states that are gained are those that were not reached before. -/
  gained_eq : ∃ new, result.2.1 = new ++ gained ∧ new.Nodup ∧ (∀ t ∈ new, ¬ Known trail src t) ∧
    ∀ t, Known result.1 src t ↔ t ∈ new ∨ Known trail src t
  /-- If the search stops, the target is reached. -/
  found : result.2.2 = true → Known result.1 src dst
  /-- Otherwise all edges have been followed, and the target was not gained. -/
  missed : result.2.2 = false → (Known result.1 src dst → Known trail src dst) ∧
    ∀ e ∈ es, allowed (g.edge e).target = true → Known result.1 src (g.edge e).target

section ExtendsTrail

variable {allowed : StateId → Bool} {src dst : StateId} {e : EdgeId} {es : List EdgeId} {trail : Trail}
  {gained : List StateId} {result : Trail × List StateId × Bool}

theorem Reaching.extends_nil (h : g.Reaching allowed src trail) (dst : StateId) (gained : List StateId) :
    g.ExtendsTrail allowed src dst [] trail gained (trail, gained, false) where
  reaching := h
  gained_eq := ⟨[], rfl, List.nodup_nil, fun _ ht => absurd ht List.not_mem_nil, by simp⟩
  found := fun hfound => absurd hfound (by simp)
  missed := fun _ => ⟨id, fun _ he => absurd he List.not_mem_nil⟩

/-- An edge to a state that is reached already, or not allowed, is left out. -/
theorem ExtendsTrail.skip (h : g.ExtendsTrail allowed src dst es trail gained result)
    (hknown : allowed (g.edge e).target = true → Known trail src (g.edge e).target) :
    g.ExtendsTrail allowed src dst (e :: es) trail gained result where
  reaching := h.reaching
  gained_eq := h.gained_eq
  found := h.found
  missed := fun hmiss => by
    refine ⟨(h.missed hmiss).1, fun f hf hallowed => ?_⟩
    rcases List.mem_cons.mp hf with rfl | hf
    · obtain ⟨new, -, -, -, hiff⟩ := h.gained_eq
      exact (hiff _).mpr (.inr (hknown hallowed))
    · exact (h.missed hmiss).2 f hf hallowed

/-- The search ends with the state it looks for. -/
theorem Reaching.extends_found {trail' : Trail} (h : g.Reaching allowed src trail')
    (hfresh : ¬ Known trail src dst) (hknown : ∀ t, Known trail' src t ↔ t = dst ∨ Known trail src t)
    (es : List EdgeId) (gained : List StateId) :
    g.ExtendsTrail allowed src dst es trail gained (trail', dst :: gained, true) where
  reaching := h
  gained_eq := by
    refine ⟨[dst], rfl, List.nodup_singleton _, fun t ht => ?_, fun t => ?_⟩
    · rw [List.mem_singleton.mp ht]
      exact hfresh
    · rw [hknown, List.mem_singleton]
  found := fun _ => (hknown dst).mpr (.inl rfl)
  missed := fun hmiss => absurd hmiss (by simp)

/-- A state that is gained is gained before those of the edges that follow. -/
theorem ExtendsTrail.take {trail' : Trail}
    (h : g.ExtendsTrail allowed src dst es trail' ((g.edge e).target :: gained) result)
    (hfresh : ¬ Known trail src (g.edge e).target) (hdst : (g.edge e).target ≠ dst)
    (hknown : ∀ t, Known trail' src t ↔ t = (g.edge e).target ∨ Known trail src t) :
    g.ExtendsTrail allowed src dst (e :: es) trail gained result where
  reaching := h.reaching
  gained_eq := by
    obtain ⟨new, hnew, hnodup, hnot, hiff⟩ := h.gained_eq
    refine ⟨new ++ [(g.edge e).target], by simp [hnew], ?_, fun t ht htrail => ?_, fun t => ?_⟩
    · refine List.nodup_append.mpr ⟨hnodup, List.nodup_singleton _, fun t ht s hs hts => ?_⟩
      rw [List.mem_singleton.mp hs] at hts
      exact hnot t ht ((hknown t).mpr (.inl hts))
    · rcases List.mem_append.mp ht with ht | ht
      · exact hnot t ht ((hknown t).mpr (.inr htrail))
      · rw [List.mem_singleton.mp ht] at htrail
        exact hfresh htrail
    · rw [hiff, hknown, List.mem_append, List.mem_singleton, or_assoc]
  found := h.found
  missed := fun hmiss => by
    obtain ⟨hunfound, hreached⟩ := h.missed hmiss
    obtain ⟨new, -, -, -, hiff⟩ := h.gained_eq
    refine ⟨fun hd => ?_, fun f hf hallowed => ?_⟩
    · exact ((hknown dst).mp (hunfound hd)).resolve_left hdst.symm
    · rcases List.mem_cons.mp hf with rfl | hf
      · exact (hiff _).mpr (.inr ((hknown _).mpr (.inl rfl)))
      · exact hreached f hf hallowed

end ExtendsTrail

/-- An edge is left out, or the state behind it is gained; then the search ends if it is the one that is
looked for. -/
theorem extendTrail_cases (g : Graph) (allowed : StateId → Bool) (src dst : StateId) (e : EdgeId)
    (es : List EdgeId) (trail : Trail) (gained : List StateId) :
    (allowed (g.edge e).target = true → Known trail src (g.edge e).target) ∧
        g.extendTrail allowed src dst (e :: es) trail gained =
          g.extendTrail allowed src dst es trail gained ∨
      (¬ Known trail src (g.edge e).target ∧ allowed (g.edge e).target = true) ∧
        ((g.edge e).target = dst ∧ g.extendTrail allowed src dst (e :: es) trail gained =
            (trail.setIfInBounds dst (some e), dst :: gained, true) ∨
          (g.edge e).target ≠ dst ∧ g.extendTrail allowed src dst (e :: es) trail gained =
            g.extendTrail allowed src dst es (trail.setIfInBounds (g.edge e).target (some e))
              ((g.edge e).target :: gained)) := by
  rw [extendTrail]
  dsimp only
  split
  · next hskip =>
    refine .inl ⟨fun hallowed => ?_, rfl⟩
    simpa [Known, hallowed] using hskip
  · next htake =>
    simp only [Bool.or_eq_true, decide_eq_true_eq, Bool.not_eq_true', not_or,
      Bool.not_eq_false] at htake
    obtain ⟨⟨hne, hnew⟩, hallowed⟩ := htake
    refine .inr ⟨⟨not_or.mpr ⟨hne, hnew⟩, hallowed⟩, ?_⟩
    split
    · next hdst => exact .inl ⟨hdst, by rw [hdst]⟩
    · next hdst => exact .inr ⟨hdst, rfl⟩

theorem extendTrail_spec (hg : g.WellFormed) {allowed : StateId → Bool} {src : StateId}
    (dst : StateId) {es : List EdgeId} {trail : Trail} (h : g.Reaching allowed src trail)
    (hes : ∀ e ∈ es, e < g.edges.size ∧ Known trail src (g.edge e).source)
    (gained : List StateId) :
    g.ExtendsTrail allowed src dst es trail gained (g.extendTrail allowed src dst es trail gained) := by
  induction es generalizing trail gained with
  | nil => exact h.extends_nil dst gained
  | cons e es ih =>
    obtain ⟨he, hsource⟩ := hes e List.mem_cons_self
    have hrest : ∀ f ∈ es, f < g.edges.size ∧ Known trail src (g.edge f).source :=
      fun f hf => hes f (List.mem_cons_of_mem _ hf)
    have hlt : (g.edge e).target < trail.size := h.size_eq ▸ hg.target_lt _ (edge_mem he)
    have hknown := known_setIfInBounds src hlt e
    rcases g.extendTrail_cases allowed src dst e es trail gained with
      ⟨hskip, heq⟩ | ⟨⟨hfresh, hallowed⟩, ⟨hdst, heq⟩ | ⟨hdst, heq⟩⟩
    · rw [heq]
      exact (ih h hrest gained).skip hskip
    · have hgrown := h.grow hg he hsource hfresh hallowed
      rw [hdst] at hgrown hfresh hknown
      rw [heq]
      exact hgrown.extends_found hfresh hknown _ _
    · have hrest' : ∀ f ∈ es, f < g.edges.size ∧
          Known (trail.setIfInBounds (g.edge e).target (some e)) src (g.edge f).source :=
        fun f hf => ⟨(hrest f hf).1, (hknown _).mpr (.inr (hrest f hf).2)⟩
      have hgrown := h.grow hg he hsource hfresh hallowed
      rw [heq]
      exact (ih hgrown hrest' _).take hfresh hdst hknown

/-- The states taken from the queue have no allowed edge to a state that is not reached. -/
structure Searching (g : Graph) (allowed : StateId → Bool) (src dst : StateId) (trail : Trail)
    (done queue : List StateId) : Prop where
  /-- The trail is a tree of allowed states. -/
  reaching : g.Reaching allowed src trail
  /-- No state is queued twice. -/
  nodup : (done ++ queue).Nodup
  /-- The states that are reached are those that were queued. -/
  known_iff : ∀ t, Known trail src t ↔ t ∈ done ++ queue
  /-- A state that was taken has all its edges followed. -/
  closed : ∀ u ∈ done, ∀ v, g.AllowedArrow allowed u v → Known trail src v
  /-- The target is not reached yet. -/
  unfound : ¬ Known trail src dst

/-- Where the queue is empty, the target cannot be reached. -/
theorem Searching.unreachable {allowed : StateId → Bool} {src dst : StateId} {trail : Trail}
    {done : List StateId} (h : g.Searching allowed src dst trail done []) :
    ¬ Relation.ReflTransGen (g.AllowedArrow allowed) src dst := by
  intro hpath
  have hall : ∀ t, Relation.ReflTransGen (g.AllowedArrow allowed) src t → t ∈ done := by
    intro t ht
    induction ht with
    | refl =>
      have hsrc := (h.known_iff src).mp (.inl rfl)
      rwa [List.append_nil] at hsrc
    | tail _ harrow ih =>
      have hknown := (h.known_iff _).mp (h.closed _ ih _ harrow)
      rwa [List.append_nil] at hknown
  exact h.unfound ((h.known_iff dst).mpr (List.mem_append_left _ (hall dst hpath)))

/-- Taking the first state from the queue without finding the target. -/
theorem Searching.step (hg : g.WellFormed) {allowed : StateId → Bool} {src dst u : StateId}
    {trail trail' : Trail} {done queue gained : List StateId}
    (h : g.Searching allowed src dst trail done (u :: queue))
    (hext : g.ExtendsTrail allowed src dst (g.outgoing u) trail [] (trail', gained, false)) :
    g.Searching allowed src dst trail' (u :: done) (queue ++ gained.reverse) := by
  obtain ⟨hreaching, ⟨new, hnew, hnodup, hnot, hiff⟩, -, hmissed⟩ := hext
  obtain ⟨hdst, hall⟩ := hmissed rfl
  rw [List.append_nil] at hnew
  dsimp only at hnew hiff hdst hall
  subst hnew
  have hperm : ((u :: done) ++ (queue ++ gained.reverse)).Perm
      (gained ++ (done ++ u :: queue)) := by
    rw [← List.append_assoc]
    exact ((List.perm_middle.symm.append_right _).trans
      ((List.reverse_perm gained).append_left _)).trans List.perm_append_comm
  refine ⟨hreaching, ?_, fun t => ?_, ?_, fun hd => h.unfound (hdst hd)⟩
  · refine hperm.nodup_iff.mpr (List.nodup_append.mpr ⟨hnodup, h.nodup, fun t ht s hs hts => ?_⟩)
    exact hnot t ht (hts ▸ (h.known_iff s).mpr hs)
  · rw [hiff, h.known_iff, ← List.mem_append, hperm.mem_iff]
  · intro v hv t harrow
    rcases List.mem_cons.mp hv with rfl | hv
    · obtain ⟨⟨k, hk⟩, hallowed⟩ := harrow
      obtain ⟨e, he⟩ := Array.mem_iff_getElem?.mp hk
      have hknown := hall e ((hg.mem_outgoing v e).mpr ⟨_, he, rfl⟩)
      rw [edge_eq he] at hknown
      exact hknown hallowed
    · exact (hiff t).mpr (.inr (h.closed v hv t harrow))

/-- The search ends with a trail that has reached the target, or there is no path to it. -/
theorem searchTrail_spec (hg : g.WellFormed) {allowed : StateId → Bool} {src dst : StateId}
    {fuel : Nat} {trail : Trail} {done queue : List StateId}
    (h : g.Searching allowed src dst trail done queue) (hfuel : g.size < fuel + done.length) :
    match g.searchTrail allowed src dst fuel queue trail with
    | some trail' => g.Reaching allowed src trail' ∧ Known trail' src dst
    | none => ¬ Relation.ReflTransGen (g.AllowedArrow allowed) src dst := by
  induction fuel generalizing trail done queue with
  | zero =>
    have hsub : done ⊆ List.range g.size := fun t ht =>
      List.mem_range.mpr (h.reaching.lt t ((h.known_iff t).mpr (List.mem_append_left _ ht)))
    have hle := (List.subperm_of_subset (List.nodup_append.mp h.nodup).1 hsub).length_le
    rw [List.length_range] at hle
    omega
  | succ fuel ih =>
    cases queue with
    | nil => exact h.unreachable
    | cons u queue =>
      have hu : Known trail src u := (h.known_iff u).mpr (by simp)
      have hext := extendTrail_spec hg dst h.reaching (fun e he => by
        obtain ⟨a, ha, rfl⟩ := (hg.mem_outgoing u e).mp he
        rw [edge_eq ha]
        exact ⟨lt_of_getElem? ha, hu⟩) []
      rw [searchTrail]
      generalize g.extendTrail allowed src dst (g.outgoing u) trail [] = result at hext ⊢
      obtain ⟨trail', gained, isFound⟩ := result
      cases isFound with
      | true => exact ⟨hext.reaching, hext.found rfl⟩
      | false =>
        refine ih (h.step hg hext) ?_
        rw [List.length_cons]
        omega

theorem searching_start (allowed : StateId → Bool) {src dst : StateId} (hsrc : src < g.size)
    (hne : src ≠ dst) :
    g.Searching allowed src dst (Array.replicate g.size none) [] [src] := by
  have hknown : ∀ t, Known (Array.replicate g.size none) src t ↔ t = src := by
    intro t
    have hnone : (Array.replicate g.size (none : Option EdgeId)).getD t none = none := by
      rw [Array.getD_eq_getD_getElem?, Array.getElem?_replicate]
      split <;> rfl
    simp [Known, hnone]
  refine ⟨⟨Array.size_replicate, ⟨_, (Tree.start g _ src).congr hknown⟩, ?_, ?_⟩,
    List.nodup_singleton src, ?_, fun u hu => absurd hu List.not_mem_nil, ?_⟩
  · exact fun t ht hne => absurd ((hknown t).mp ht) hne
  · intro t ht
    rw [(hknown t).mp ht]
    exact hsrc
  · intro t
    rw [hknown, List.nil_append, List.mem_singleton]
  · exact fun hd => hne ((hknown dst).mp hd).symm

/-- If a path of allowed states leads to the target, the search finds one. -/
theorem shortestPath_spec (hg : g.WellFormed) {allowed : StateId → Bool} {src dst : StateId}
    (hsrc : src < g.size) (hpath : Relation.ReflTransGen (g.AllowedArrow allowed) src dst) :
    g.Route src (g.shortestPath allowed src dst) dst ∧
      ∀ e ∈ g.shortestPath allowed src dst, allowed (g.edge e).target = true := by
  rw [shortestPath]
  split
  · next heq => exact ⟨heq, fun e he => absurd he List.not_mem_nil⟩
  · next hne =>
    have hfuel : g.size < g.size + 1 + ([] : List StateId).length := by simp
    have hsearch := searchTrail_spec hg (searching_start allowed hsrc hne) hfuel
    generalize g.searchTrail allowed src dst (g.size + 1) [src] (Array.replicate g.size none)
      = result at hsearch ⊢
    cases result with
    | none => exact absurd hpath hsearch
    | some trail =>
      obtain ⟨hreaching, hdst⟩ := hsearch
      obtain ⟨depth, htree⟩ := hreaching.tree
      have hdepth := htree.depth_lt hreaching.lt hdst
      obtain ⟨es, hretrace, hroute, hes⟩ := htree.retrace_spec hdst (Nat.lt_succ_of_lt hdepth) []
      rw [List.append_nil] at hretrace
      dsimp only
      rw [hretrace]
      exact ⟨hroute, fun e he => hreaching.allowed _ (hes e he).1 (hes e he).2.1⟩

end Graph

end StackDepth
