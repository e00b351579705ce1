import Mathlib
import StackDepth.Proofs.Graph.Counters

/-!
# Histories of calls

A graph keeps the same facts in several places: a state in the array and under its key, an edge in the
list of all edges and at its two ends, a waiting state in the list and by a flag, and all of them in the
counters. A history lists the calls that were made to a graph and their answers, the latest first, and
tells without the graph what must be in it: the states and the edges in the order in which they first
occur, the states that are explored, and the stack of those that wait.

* `Graph.Call`, `Graph.call`: the calls and their answers, a refused one included;
* `Graph.Reflects`: what the graph holds is what its history tells;
* `Graph.Reflects.call`: every call on numbers that were given keeps it so;
* `Graph.Run.faithful_run`: so it is after every history, and the next call is answered accordingly.
-/

namespace StackDepth

namespace Graph

variable {g g' : Graph} {id : StateId} {s : State} {a : Edge}

/-! ### Calls -/

/-- A call to a graph. -/
inductive Call where
  /-- Intern a state. -/
  | intern (s : State)
  /-- Add an edge. -/
  | addEdge (a : Edge)
  /-- Mark how the instruction of a state ends. -/
  | setKind (id : StateId) (k : StateKind)
  /-- Put a state on the frontier. -/
  | pushFrontier (id : StateId)
  /-- Take a state from the frontier. -/
  | popFrontier
  /-- Mark a state as explored. -/
  | setExplored (id : StateId)

/-- The call may add a state or an edge. -/
def Call.enlarges : Call → Bool
  | .intern _ | .addEdge _ => true
  | _ => false

/-- The call may change which states wait and which are explored. -/
def Call.schedules : Call → Bool
  | .pushFrontier _ | .popFrontier | .setExplored _ => true
  | _ => false

/-- The answer to a call. -/
inductive Answer where
  /-- The number of a state. -/
  | state (id : StateId)
  /-- The number of an edge, and whether the edge is new. -/
  | edge (e : EdgeId) (isNew : Bool)
  /-- The state taken from the frontier, if there was one. -/
  | popped (id : Option StateId)
  /-- The call is carried out. -/
  | done
  /-- The call is refused. -/
  | refused
deriving DecidableEq

/-- A call and its answer. -/
def call (g : Graph) : Call → Graph × Answer
  | .intern s => ((g.intern s).1, .state (g.intern s).2)
  | .addEdge a =>
      match g.addEdge a.source a.target a.kind with
      | (g', .added e) => (g', .edge e true)
      | (g', .present e) => (g', .edge e false)
      | (g', .missing) => (g', .refused)
  | .setKind id k => (g.setKind id k, .done)
  | .pushFrontier id => (g.pushFrontier id, .done)
  | .popFrontier =>
      match g.popFrontier? with
      | some (id, g') => (g', .popped (some id))
      | none => (g, .popped none)
  | .setExplored id =>
      match g.setExplored id with
      | .ok g' => (g', .done)
      | .error _ => (g, .refused)

/-- A call speaks of states that have a number. -/
def Admits (g : Graph) : Call → Prop
  | .intern _ | .popFrontier => True
  | .addEdge a => a.source < g.size ∧ a.target < g.size
  | .setKind id _ | .pushFrontier id | .setExplored id => id < g.size

/-- A graph and the calls that led to it, the latest first. A new graph interns its start state and puts
it on the frontier. -/
inductive Run : List (Call × Answer) → Graph → Prop where
  /-- The graph of a start state. -/
  | start (s : State) : Run [(.pushFrontier 0, .done), (.intern s, .state 0)] (Graph.start s)
  /-- One more call. -/
  | call {past : List (Call × Answer)} {g : Graph} (h : Run past g) {c : Call} (hc : g.Admits c) :
      Run ((c, (g.call c).2) :: past) (g.call c).1

/-! ### What a history tells -/

section Told

variable (past : List (Call × Answer))

/-- The states that were interned. -/
def interned : List State :=
  past.filterMap fun
    | (.intern s, _) => some s
    | _ => none

/-- The edges that were added, new or not. -/
def joined : List Edge :=
  past.filterMap fun
    | (.addEdge a, _) => some a
    | _ => none

/-- The states that were marked as explored. -/
def finished : List StateId :=
  past.filterMap fun
    | (.setExplored id, .done) => some id
    | _ => none

/-- The states that were put on the frontier, whether they could wait there or not. -/
def pushed : List StateId :=
  past.filterMap fun
    | (.pushFrontier id, _) => some id
    | _ => none

/-- The states that were taken from the frontier. -/
def popped : List StateId :=
  past.filterMap fun
    | (.popFrontier, .popped id) => id
    | _ => none

end Told

/-- The stack of the states that wait. -/
def waiting : List (Call × Answer) → List StateId
  | [] => []
  | (.pushFrontier id, _) :: past =>
      if id ∈ waiting past ∨ id ∈ finished past then waiting past else id :: waiting past
  | (.popFrontier, _) :: past => (waiting past).tail
  | _ :: past => waiting past

/-- The numbers of the edges with a property, in increasing order. -/
def edgesWhere (g : Graph) (P : Edge → Prop) [DecidablePred P] : List EdgeId :=
  (List.range g.edges.size).filter fun e => P (g.edge e)

/-- The lists at the ends of the edges. -/
structure Indexed (g : Graph) : Prop where
  /-- The edges that leave a state, each once and in increasing order. -/
  outgoing_eq : ∀ id, g.outgoing id = g.edgesWhere (·.source = id)
  /-- The edges that enter a state, each once and in increasing order. -/
  incoming_eq : ∀ id, g.incoming id = g.edgesWhere (·.target = id)

/-- The states and the edges are those of the history. -/
structure Remembers (g : Graph) (past : List (Call × Answer)) : Prop where
  /-- The states are numbered in the order in which they were first interned. -/
  states_eq : g.cache.states.toList = (interned past).dedup.reverse
  /-- The edges are numbered in the order in which they were first added. -/
  edges_eq : g.edges.toList = (joined past).dedup.reverse
  /-- A number that was given still stands for its state. -/
  interned_at : ∀ s r, (.intern s, r) ∈ past → ∃ id, r = .state id ∧ g.cache.state? id = some s
  /-- A number that was given still stands for its edge. -/
  joined_at : ∀ a r, (.addEdge a, r) ∈ past → ∃ e isNew, r = .edge e isNew ∧ g.edges[e]? = some a

/-- The states that wait and the explored states are those of the history. -/
structure Schedules (g : Graph) (past : List (Call × Answer)) : Prop where
  /-- The states that are explored. -/
  explored_iff : ∀ id, (g.node id).explored = true ↔ id ∈ finished past
  /-- The states that wait, the latest first. -/
  frontier_eq : g.frontier = waiting past
  /-- A state leaves the frontier, or waits there, at most once for each time it was put there. -/
  balanced : ∀ id, (popped past).count id + (waiting past).count id ≤ (pushed past).count id

/-- The graph holds what its history tells. -/
structure Reflects (g : Graph) (past : List (Call × Answer)) : Prop
    extends g.Remembers past, g.Schedules past where
  /-- The graph is well-formed. -/
  wellFormed : g.WellFormed
  /-- The frontier lists the states that wait. -/
  inOrder : g.FrontierInOrder
  /-- The counters count. -/
  counted : g.Counted
  /-- The edges of a state are listed with it. -/
  indexed : g.Indexed

/-! ### Interning and linking -/

theorem dedup_reverse_cons {α : Type} [DecidableEq α] (a : α) (l : List α) :
    (a :: l).dedup.reverse =
      if a ∈ l.dedup.reverse then l.dedup.reverse else l.dedup.reverse ++ [a] := by
  have hmem : a ∈ l.dedup.reverse ↔ a ∈ l := List.mem_reverse.trans List.mem_dedup
  by_cases h : a ∈ l
  · rw [List.dedup_cons_of_mem h, if_pos (hmem.mpr h)]
  · rw [List.dedup_cons_of_notMem h, List.reverse_cons, if_neg (hmem.not.mpr h)]

theorem mem_states_iff : s ∈ g.cache.states.toList ↔ ∃ id, g.cache.state? id = some s := by
  rw [← Array.mem_def, Array.mem_iff_getElem?]
  rfl

theorem find?_eq_none_iff (hg : g.WellFormed) :
    g.cache.find? s = none ↔ s ∉ g.cache.states.toList := by
  rw [mem_states_iff, Option.eq_none_iff_forall_ne_some, not_exists]
  exact forall_congr' fun id => not_congr (hg.faithful s id)

theorem states_intern (hg : g.WellFormed) (s : State) :
    (g.intern s).1.cache.states.toList =
      if s ∈ g.cache.states.toList then g.cache.states.toList else g.cache.states.toList ++ [s] := by
  have hnone := find?_eq_none_iff (s := s) hg
  unfold intern
  split
  · next id hfind =>
    have hmem : s ∈ g.cache.states.toList := mem_states_iff.mpr ⟨id, (hg.faithful s id).mp hfind⟩
    rw [if_pos hmem]
  · next hfind =>
    rw [if_neg (hnone.mp hfind)]
    exact Array.toList_push

theorem state?_intern {t : State} (h : g.cache.state? id = some t) :
    (g.intern s).1.cache.state? id = some t := by
  unfold intern
  split
  · exact h
  · have hne : id ≠ g.cache.size := by
      rintro rfl
      rw [Cache.state?_eq_none le_rfl] at h
      exact absurd h (by simp)
    rw [Cache.state?_push, if_neg hne, h]

/-- A state gets its place in the list of states, which is behind the last one if it is new. -/
theorem intern_snd (hg : g.WellFormed) (hnodup : g.cache.states.toList.Nodup) (s : State) :
    (g.intern s).2 = g.cache.states.toList.idxOf s := by
  have hnone := find?_eq_none_iff (s := s) hg
  unfold intern
  split
  · next id hfind =>
    have hstate := (hg.faithful s id).mp hfind
    rw [Cache.state?, ← Array.getElem?_toList] at hstate
    obtain ⟨hlt, rfl⟩ := List.getElem?_eq_some_iff.mp hstate
    exact (hnodup.idxOf_getElem id hlt).symm
  · next hfind =>
    rw [List.idxOf_of_notMem (hnone.mp hfind)]
    rfl

/-- The edge that is found is the one that was to be added. -/
theorem getElem?_of_present (hg : g.WellFormed) {src dst : StateId} {kind : EdgeKind} {e : EdgeId}
    (h : g.addEdge src dst kind = (g', .present e)) : g.edges[e]? = some ⟨src, dst, kind⟩ := by
  rw [addEdge] at h
  split at h
  · cases hfind : g.findEdge? src dst kind with
    | some f =>
      simp only [hfind, Prod.mk.injEq, Link.present.injEq] at h
      obtain ⟨-, rfl⟩ := h
      have hmem := Array.mem_of_find?_eq_some hfind
      have hsame := Array.find?_some hfind
      obtain ⟨b, hb, rfl⟩ := (hg.mem_outgoing src f).mp (Array.mem_def.mp hmem)
      rw [edge_eq hb, Bool.and_eq_true, beq_iff_eq, beq_iff_eq] at hsame
      rw [hb, ← hsame.1, ← hsame.2]
    | none =>
      simp only [hfind] at h
      split at h <;> simp at h
  · simp at h

/-- An edge gets its place in the list of edges, which is behind the last one if it is new. -/
theorem call_addEdge (hg : g.WellFormed) (hs : a.source < g.size) (ht : a.target < g.size) :
    g.call (.addEdge a) = (if a ∈ g.edges then g else g.link a,
      .edge (g.edges.toList.idxOf a) (decide (a ∉ g.edges))) := by
  rw [call]
  rcases addEdge_cases hg a.kind hs ht with ⟨hmem, e, heq⟩ | ⟨hnew, heq⟩
  · have hedge := getElem?_of_present hg heq
    rw [← Array.getElem?_toList] at hedge
    obtain ⟨hlt, hget⟩ := List.getElem?_eq_some_iff.mp hedge
    have hidx : g.edges.toList.idxOf a = e := by
      have hplace := hg.nodup_edges.idxOf_getElem e hlt
      rwa [hget] at hplace
    have hmem' : a ∈ g.edges := hmem
    rw [heq, if_pos hmem', hidx, decide_eq_false (not_not_intro hmem')]
  · have hnew' : a ∉ g.edges := hnew
    have hidx : g.edges.toList.idxOf a = g.edges.size :=
      List.idxOf_of_notMem fun h => hnew' (Array.mem_def.mpr h)
    rw [heq, if_neg hnew', hidx, decide_eq_true hnew']

theorem edgesWhere_congr (P : Edge → Prop) [DecidablePred P] (h : g'.edges = g.edges) :
    g'.edgesWhere P = g.edgesWhere P := by
  have hedge : ∀ e, g'.edge e = g.edge e := fun e => by rw [edge, edge, h]
  rw [edgesWhere, edgesWhere, h]
  exact List.filter_congr fun e _ => by rw [hedge e]

theorem edgesWhere_link (g : Graph) (a : Edge) (P : Edge → Prop) [DecidablePred P] :
    (g.link a).edgesWhere P =
      if P a then g.edgesWhere P ++ [g.edges.size] else g.edgesWhere P := by
  have hold : ∀ e ∈ List.range g.edges.size, (g.link a).edge e = g.edge e := by
    intro e he
    have hlt := List.mem_range.mp he
    refine edge_eq ?_
    rw [getElem?_link, if_neg hlt.ne, getElem?_of_lt hlt]
  have hlast : (g.link a).edge g.edges.size = a := by
    refine edge_eq ?_
    rw [getElem?_link, if_pos rfl]
  have hfilter : (List.range g.edges.size).filter (fun e => decide (P ((g.link a).edge e))) =
      g.edgesWhere P := by
    refine List.filter_congr fun e he => ?_
    rw [hold e he]
  rw [edgesWhere, edges_link, Array.size_push, List.range_succ, List.filter_append, hfilter,
    List.filter_singleton, hlast]
  by_cases hP : P a
  · simp [hP]
  · simp [hP]

theorem Indexed.congr (h : g.Indexed) (hshape : SameShape g g') : g'.Indexed where
  outgoing_eq id := by
    rw [outgoing, (hshape.lists_eq id).1, edgesWhere_congr _ hshape.edges_eq]
    exact h.outgoing_eq id
  incoming_eq id := by
    rw [incoming, (hshape.lists_eq id).2, edgesWhere_congr _ hshape.edges_eq]
    exact h.incoming_eq id

theorem Indexed.intern (h : g.Indexed) (s : State) : (g.intern s).1.Indexed where
  outgoing_eq id := by
    rw [outgoing, node_intern, edgesWhere_congr _ (edges_intern g s)]
    exact h.outgoing_eq id
  incoming_eq id := by
    rw [incoming, node_intern, edgesWhere_congr _ (edges_intern g s)]
    exact h.incoming_eq id

theorem Indexed.link (h : g.Indexed) (hg : g.WellFormed) (hs : a.source < g.size)
    (ht : a.target < g.size) : (g.link a).Indexed where
  outgoing_eq id := by
    have hlist := h.outgoing_eq id
    rw [outgoing] at hlist
    rw [outgoing, node_link (hg.nodes_size ▸ hs) (hg.nodes_size ▸ ht), edgesWhere_link, ← hlist]
    by_cases hid : id = a.source
    · simp [hid]
    · simp [hid, Ne.symm hid]
  incoming_eq id := by
    have hlist := h.incoming_eq id
    rw [incoming] at hlist
    rw [incoming, node_link (hg.nodes_size ▸ hs) (hg.nodes_size ▸ ht), edgesWhere_link, ← hlist]
    by_cases hid : id = a.target
    · simp [hid]
    · simp [hid, Ne.symm hid]

/-! ### One more call -/

variable {past : List (Call × Answer)}

/-- A call that leaves the states and the edges alone. -/
theorem Remembers.frame (h : g.Remembers past) (hshape : SameShape g g') {c : Call}
    (hc : c.enlarges = false) (r : Answer) : g'.Remembers ((c, r) :: past) := by
  have hcall : (∀ s, c ≠ .intern s) ∧ ∀ a, c ≠ .addEdge a := by
    cases c <;> simp_all [Call.enlarges]
  have hinterned : interned ((c, r) :: past) = interned past := by
    cases c <;> first | rfl | cases hc
  have hjoined : joined ((c, r) :: past) = joined past := by
    cases c <;> first | rfl | cases hc
  refine ⟨?_, ?_, fun s r' hr => ?_, fun a r' hr => ?_⟩
  · rw [hshape.cache_eq, hinterned, h.states_eq]
  · rw [hshape.edges_eq, hjoined, h.edges_eq]
  · rw [hshape.cache_eq]
    refine h.interned_at s r' ((List.mem_cons.mp hr).resolve_left fun heq => ?_)
    exact hcall.1 s (Prod.mk.inj heq).1.symm
  · rw [hshape.edges_eq]
    refine h.joined_at a r' ((List.mem_cons.mp hr).resolve_left fun heq => ?_)
    exact hcall.2 a (Prod.mk.inj heq).1.symm

/-- A call that leaves the frontier and the marks alone. -/
theorem Schedules.frame (h : g.Schedules past)
    (hexp : ∀ id, (g'.node id).explored = (g.node id).explored) (hfront : g'.frontier = g.frontier)
    {c : Call} (hc : c.schedules = false) (r : Answer) : g'.Schedules ((c, r) :: past) := by
  have hfinished : finished ((c, r) :: past) = finished past := by
    cases c <;> first | rfl | cases hc
  have hpushed : pushed ((c, r) :: past) = pushed past := by
    cases c <;> first | rfl | cases hc
  have hpopped : popped ((c, r) :: past) = popped past := by
    cases c <;> first | rfl | cases hc
  have hwaiting : waiting ((c, r) :: past) = waiting past := by
    cases c <;> first | rfl | cases hc
  refine ⟨fun id => ?_, ?_, fun id => ?_⟩
  · rw [hexp, hfinished, h.explored_iff]
  · rw [hfront, hwaiting, h.frontier_eq]
  · rw [hpopped, hwaiting, hpushed]
    exact h.balanced id

namespace Reflects

theorem empty : ({} : Graph).Reflects [] where
  wellFormed := wellFormed_empty
  inOrder := frontierInOrder_empty
  counted := ⟨rfl, rfl, rfl, rfl⟩
  indexed :=
    ⟨fun id => by simp [outgoing, node, edgesWhere], fun id => by simp [incoming, node, edgesWhere]⟩
  states_eq := rfl
  edges_eq := rfl
  interned_at s r h := absurd h List.not_mem_nil
  joined_at a r h := absurd h List.not_mem_nil
  explored_iff id := by simp [node, finished]
  frontier_eq := rfl
  balanced id := le_rfl

theorem intern (h : g.Reflects past) (s : State) :
    (g.intern s).1.Reflects ((.intern s, .state (g.intern s).2) :: past) where
  wellFormed := h.wellFormed.intern s
  inOrder := h.inOrder.intern s
  counted := h.counted.intern h.wellFormed s
  indexed := h.indexed.intern s
  states_eq := by
    have hcons : interned ((.intern s, .state (g.intern s).2) :: past) = s :: interned past := rfl
    rw [hcons, dedup_reverse_cons, ← h.states_eq]
    exact states_intern h.wellFormed s
  edges_eq := by
    rw [edges_intern]
    exact h.edges_eq
  interned_at t r ht := by
    rcases List.mem_cons.mp ht with heq | hold
    · obtain ⟨hcall, rfl⟩ := Prod.mk.inj heq
      obtain rfl := Call.intern.inj hcall
      obtain ⟨hlt, hstate⟩ := intern_spec h.wellFormed t
      refine ⟨_, rfl, ?_⟩
      rw [WellFormed.state?_of_lt hlt, hstate]
    · obtain ⟨id, hid, hstate⟩ := h.interned_at t r hold
      exact ⟨id, hid, state?_intern hstate⟩
  joined_at a r ha := by
    rw [edges_intern]
    exact h.joined_at a r ((List.mem_cons.mp ha).resolve_left (by simp))
  toSchedules := h.toSchedules.frame (fun id => by rw [node_intern]) (frontier_intern g s) rfl _

/-- An edge that is new. -/
theorem link (h : g.Reflects past) (hs : a.source < g.size) (ht : a.target < g.size)
    (hnew : a ∉ g.edges) : (g.link a).Reflects ((.addEdge a, .edge g.edges.size true) :: past) where
  wellFormed := h.wellFormed.link hs ht hnew
  inOrder := h.inOrder.link h.wellFormed hs ht
  counted := h.counted.link h.wellFormed hs ht
  indexed := h.indexed.link h.wellFormed hs ht
  states_eq := h.states_eq
  edges_eq := by
    have hcons : joined ((.addEdge a, .edge g.edges.size true) :: past) = a :: joined past := rfl
    rw [hcons, dedup_reverse_cons, ← h.edges_eq, if_neg fun hmem => hnew (Array.mem_def.mpr hmem),
      edges_link, Array.toList_push]
  interned_at t r hmem := h.interned_at t r ((List.mem_cons.mp hmem).resolve_left (by simp))
  joined_at b r hb := by
    rcases List.mem_cons.mp hb with heq | hold
    · obtain ⟨hcall, rfl⟩ := Prod.mk.inj heq
      obtain rfl := Call.addEdge.inj hcall
      refine ⟨_, _, rfl, ?_⟩
      rw [getElem?_link, if_pos rfl]
    · obtain ⟨e, isNew, hr, hedge⟩ := h.joined_at b r hold
      exact ⟨e, isNew, hr, (g.grows_link a).edge_eq e b hedge⟩
  toSchedules :=
    have hmarks := sameMarks_link (h.wellFormed.nodes_size ▸ hs) (h.wellFormed.nodes_size ▸ ht)
    h.toSchedules.frame (fun id => (hmarks id).2.1) rfl rfl _

/-- An edge that is there changes nothing. -/
theorem present (h : g.Reflects past) {e : EdgeId} (he : g.edges[e]? = some a) :
    g.Reflects ((.addEdge a, .edge e false) :: past) where
  wellFormed := h.wellFormed
  inOrder := h.inOrder
  counted := h.counted
  indexed := h.indexed
  states_eq := h.states_eq
  edges_eq := by
    have hcons : joined ((.addEdge a, .edge e false) :: past) = a :: joined past := rfl
    rw [hcons, dedup_reverse_cons, ← h.edges_eq, if_pos (Array.mem_def.mp (Array.mem_of_getElem? he))]
  interned_at t r ht := h.interned_at t r ((List.mem_cons.mp ht).resolve_left (by simp))
  joined_at b r hb := by
    rcases List.mem_cons.mp hb with heq | hold
    · obtain ⟨hcall, rfl⟩ := Prod.mk.inj heq
      obtain rfl := Call.addEdge.inj hcall
      exact ⟨e, false, rfl, he⟩
    · exact h.joined_at b r hold
  toSchedules := h.toSchedules.frame (fun _ => rfl) rfl rfl _

theorem setKind (h : g.Reflects past) (hid : id < g.size) (k : StateKind) :
    (g.setKind id k).Reflects ((.setKind id k, .done) :: past) := by
  have hshape := sameShape_setKind g id k
  have hlt : id < g.nodes.size := h.wellFormed.nodes_size ▸ hid
  exact ⟨h.toRemembers.frame hshape rfl _, h.toSchedules.frame (g.explored_setKind id k) rfl rfl _,
    hshape.wellFormed h.wellFormed, h.inOrder.setKind id k, h.counted.setKind hlt k,
    h.indexed.congr hshape⟩

theorem pushFrontier (h : g.Reflects past) (hid : id < g.size) :
    (g.pushFrontier id).Reflects ((.pushFrontier id, .done) :: past) := by
  have hshape := sameShape_pushFrontier g id
  have hwaits : ((g.node id).onFrontier || (g.node id).explored) = true ↔
      id ∈ waiting past ∨ id ∈ finished past := by
    rw [Bool.or_eq_true, h.inOrder.onFrontier_iff, h.explored_iff, h.frontier_eq]
  have hwaiting : waiting ((.pushFrontier id, .done) :: past) =
      if id ∈ waiting past ∨ id ∈ finished past then waiting past else id :: waiting past := rfl
  have hpushed : pushed ((.pushFrontier id, .done) :: past) = id :: pushed past := rfl
  have hpopped : popped ((.pushFrontier id, .done) :: past) = popped past := rfl
  refine ⟨h.toRemembers.frame hshape rfl _, ⟨fun j => ?_, ?_, fun j => ?_⟩,
    hshape.wellFormed h.wellFormed, h.inOrder.pushFrontier h.wellFormed hid,
    h.counted.pushFrontier h.wellFormed id, h.indexed.congr hshape⟩
  · rw [(sameMarks_pushFrontier g id j).2.1]
    exact h.explored_iff j
  · rw [hwaiting, Graph.pushFrontier]
    by_cases hw : id ∈ waiting past ∨ id ∈ finished past
    · rw [if_pos (hwaits.mpr hw), if_pos hw, h.frontier_eq]
    · rw [if_neg fun hflag => hw (hwaits.mp hflag), if_neg hw, h.frontier_eq]
  · have hold := h.balanced j
    rw [hpushed, hpopped, hwaiting, List.count_cons]
    split
    · exact hold.trans (Nat.le_add_right _ _)
    · rw [List.count_cons, ← Nat.add_assoc]
      exact Nat.add_le_add_right hold _

/-- The latest state that waits is taken. -/
theorem dropFrontier (h : g.Reflects past) {rest : List StateId} (hfront : g.frontier = id :: rest) :
    (g.dropFrontier id).Reflects ((.popFrontier, .popped (some id)) :: past) := by
  have hshape := sameShape_dropFrontier g id
  have hwaiting : waiting ((.popFrontier, .popped (some id)) :: past) = (waiting past).tail := rfl
  have hpushed : pushed ((.popFrontier, .popped (some id)) :: past) = pushed past := rfl
  have hpopped : popped ((.popFrontier, .popped (some id)) :: past) = id :: popped past := rfl
  have hstack : waiting past = id :: rest := h.frontier_eq.symm.trans hfront
  refine ⟨h.toRemembers.frame hshape rfl _, ⟨fun j => ?_, ?_, fun j => ?_⟩,
    hshape.wellFormed h.wellFormed, h.inOrder.dropFrontier h.wellFormed hfront,
    h.counted.dropFrontier id, h.indexed.congr hshape⟩
  · rw [explored_dropFrontier]
    exact h.explored_iff j
  · rw [hwaiting, ← h.frontier_eq]
    rfl
  · have hold := h.balanced j
    rw [hstack, List.count_cons] at hold
    rw [hpushed, hpopped, hwaiting, hstack, List.tail_cons, List.count_cons]
    omega

/-- Nothing is taken from an empty frontier. -/
theorem popNothing (h : g.Reflects past) (hfront : g.frontier = []) :
    g.Reflects ((.popFrontier, .popped none) :: past) := by
  have hwaiting : waiting ((.popFrontier, .popped none) :: past) = (waiting past).tail := rfl
  have hpopped : popped ((.popFrontier, .popped none) :: past) = popped past := rfl
  have hstack : waiting past = [] := h.frontier_eq.symm.trans hfront
  refine ⟨h.toRemembers.frame (SameShape.refl g) rfl _, ⟨h.explored_iff, ?_, fun j => ?_⟩, h.wellFormed,
    h.inOrder, h.counted, h.indexed⟩
  · rw [hwaiting, hstack, hfront]
    rfl
  · have hold := h.balanced j
    rw [hwaiting, hpopped, hstack, List.tail_nil, ← hstack]
    exact hold

/-- A state that does not wait is marked. -/
theorem markExplored (h : g.Reflects past) (hid : id < g.size)
    (hnot : (g.node id).onFrontier = false) :
    (g.markExplored id).Reflects ((.setExplored id, .done) :: past) := by
  have hshape := sameShape_markExplored g id
  have hfinished : finished ((.setExplored id, .done) :: past) = id :: finished past := rfl
  refine ⟨h.toRemembers.frame hshape rfl _, ⟨fun j => ?_, ?_, h.balanced⟩,
    hshape.wellFormed h.wellFormed, h.inOrder.markExplored h.wellFormed hid hnot,
    h.counted.markExplored h.wellFormed hid, h.indexed.congr hshape⟩
  · have hold := h.explored_iff j
    rw [hfinished, List.mem_cons, ← hold]
    cases hexp : (g.node id).explored with
    | true =>
      rw [markExplored_of_explored hexp]
      refine ⟨.inr, ?_⟩
      rintro (rfl | hj)
      · exact hexp
      · exact hj
    | false =>
      rw [node_markExplored (h.wellFormed.nodes_size ▸ hid) hexp]
      by_cases hj : j = id
      · simp [hj]
      · simp [hj]
  · rw [frontier_markExplored]
    exact h.frontier_eq

/-- A state that waits is not marked as explored, and nothing changes. -/
theorem refused (h : g.Reflects past) (id : StateId) :
    g.Reflects ((.setExplored id, .refused) :: past) where
  toRemembers := h.toRemembers.frame (SameShape.refl g) rfl _
  explored_iff := h.explored_iff
  frontier_eq := h.frontier_eq
  balanced := h.balanced
  wellFormed := h.wellFormed
  inOrder := h.inOrder
  counted := h.counted
  indexed := h.indexed

end Reflects

theorem call_popFrontier (g : Graph) : g.call .popFrontier =
    (match g.frontier with
      | [] => g
      | id :: _ => g.dropFrontier id, .popped g.frontier.head?) := by
  rw [call, popFrontier?]
  cases g.frontier <;> rfl

theorem call_setExplored (g : Graph) (id : StateId) : g.call (.setExplored id) =
    if (g.node id).onFrontier then (g, .refused) else (g.markExplored id, .done) := by
  rw [call, setExplored]
  cases (g.node id).onFrontier <;> rfl

/-- Every call on states that have a number keeps a graph in agreement with its history. -/
theorem Reflects.call (h : g.Reflects past) {c : Call}
    (hc : g.Admits c) : (g.call c).1.Reflects ((c, (g.call c).2) :: past) := by
  cases c with
  | intern s => exact h.intern s
  | addEdge a =>
    obtain ⟨hs, ht⟩ := hc
    rw [call_addEdge h.wellFormed hs ht]
    by_cases hmem : a ∈ g.edges
    · rw [if_pos hmem, decide_eq_false (not_not_intro hmem)]
      refine h.present ?_
      rw [← Array.getElem?_toList]
      exact List.getElem?_idxOf (Array.mem_def.mp hmem)
    · have hidx : g.edges.toList.idxOf a = g.edges.size :=
        List.idxOf_of_notMem fun h => hmem (Array.mem_def.mpr h)
      rw [if_neg hmem, decide_eq_true hmem, hidx]
      exact h.link hs ht hmem
  | setKind id k => exact h.setKind hc k
  | pushFrontier id => exact h.pushFrontier hc
  | popFrontier =>
    rw [call_popFrontier]
    cases hfront : g.frontier with
    | nil => exact h.popNothing hfront
    | cons id rest => exact h.dropFrontier hfront
  | setExplored id =>
    rw [call_setExplored]
    cases hwaits : (g.node id).onFrontier with
    | true => exact h.refused id
    | false => exact h.markExplored hc hwaits

/-! ### Every history -/

/-- What a graph guarantees after a history of calls. -/
structure Faithful (g : Graph) (past : List (Call × Answer)) : Prop extends g.Reflects past where
  /-- A state that is interned again gets its number, a new one the next number. -/
  intern_answer : ∀ s, (g.call (.intern s)).2 = .state (g.cache.states.toList.idxOf s)
  /-- Two calls gave the same number exactly if they interned the same state. -/
  same_number_iff : ∀ s t i j, (.intern s, .state i) ∈ past → (.intern t, .state j) ∈ past →
    (i = j ↔ s = t)
  /-- An edge that is added again gets its number and changes nothing, a new one gets the next number. -/
  addEdge_answer : ∀ a, g.Admits (.addEdge a) →
    (g.call (.addEdge a)).2 = .edge (g.edges.toList.idxOf a) (decide (a ∉ g.edges)) ∧
      (a ∈ g.edges → (g.call (.addEdge a)).1 = g)
  /-- No two edges agree in their ends and their kind. -/
  distinct : g.edges.toList.Nodup
  /-- The kind of an edge tells its weight. -/
  weight_eq : ∀ e, (g.edge e).weight = (g.edge e).kind.weight
  /-- No state waits and is explored. -/
  apart : ∀ id, ¬ ((g.node id).onFrontier = true ∧ (g.node id).explored = true)
  /-- The flags agree with the stack of the states that wait, and the latest of them is taken first. -/
  onFrontier_iff : ∀ id, (g.node id).onFrontier = true ↔ id ∈ waiting past
  /-- What is taken is the state that was put there last. -/
  pop_answer : (g.call .popFrontier).2 = .popped (waiting past).head?
  /-- A state is taken at most once for each time it was put on the frontier. -/
  popped_le : ∀ id, (popped past).count id ≤ (pushed past).count id
  /-- Marking a state that waits is refused and changes nothing. -/
  explore_answer : ∀ id, (g.call (.setExplored id)).2 =
    if (g.node id).onFrontier then .refused else .done
  /-- A refused call leaves the graph as it was. -/
  explore_refused : ∀ id, (g.node id).onFrontier = true → (g.call (.setExplored id)).1 = g
  /-- The counters count. -/
  frontierCount_eq : g.frontierCount = g.tally fun n => n.onFrontier = true
  /-- So does the number of explored states. -/
  exploredCount_eq : g.exploredCount = g.tally fun n => n.explored = true
  /-- So does the number of edges. -/
  edgeCount_eq : g.edgeCount = g.edges.size
  /-- So does the number of states. -/
  stateCount_eq : g.stateCount = g.size

theorem FrontierInOrder.length_frontier (hf : g.FrontierInOrder) :
    g.frontier.length = g.tally fun n => n.onFrontier = true := by
  have hset : (Finset.range g.size).filter (fun id => (g.node id).onFrontier = true) =
      g.frontier.toFinset := by
    ext id
    rw [Finset.mem_filter, Finset.mem_range, List.mem_toFinset, hf.onFrontier_iff]
    exact ⟨fun h => h.2, fun h => ⟨(hf.waiting id h).1, h⟩⟩
  rw [tally, hset, List.toFinset_card_of_nodup hf.nodup]

theorem Reflects.faithful (h : g.Reflects past) : g.Faithful past where
  toReflects := h
  intern_answer s := by
    have hnodup : g.cache.states.toList.Nodup := by
      rw [h.states_eq]
      exact List.nodup_reverse.mpr (List.nodup_dedup _)
    exact congrArg Answer.state (intern_snd h.wellFormed hnodup s)
  same_number_iff s t i j hs ht := by
    obtain ⟨i', hi', hi⟩ := h.interned_at s _ hs
    obtain ⟨j', hj', hj⟩ := h.interned_at t _ ht
    obtain rfl := Answer.state.inj hi'
    obtain rfl := Answer.state.inj hj'
    constructor
    · rintro rfl
      exact Option.some.inj (hi.symm.trans hj)
    · rintro rfl
      exact h.wellFormed.faithful.injective hi hj
  addEdge_answer a ha := by
    rw [call_addEdge h.wellFormed ha.1 ha.2]
    exact ⟨rfl, fun hmem => if_pos hmem⟩
  distinct := h.wellFormed.nodup_edges
  weight_eq e := rfl
  apart id hboth := by
    have hwaits := h.inOrder.waiting id ((h.inOrder.onFrontier_iff id).mp hboth.1)
    exact Bool.false_ne_true (hwaits.2.symm.trans hboth.2)
  onFrontier_iff id := by rw [h.inOrder.onFrontier_iff, h.frontier_eq]
  pop_answer := by rw [call_popFrontier, h.frontier_eq]
  popped_le id := le_of_add_le_left (h.balanced id)
  explore_answer id := by
    rw [call_setExplored]
    split <;> rfl
  explore_refused id hwaits := by rw [call_setExplored, if_pos hwaits]
  frontierCount_eq := h.counted.waiting.trans h.inOrder.length_frontier
  exploredCount_eq := h.counted.explored
  edgeCount_eq := h.counted.edges
  stateCount_eq := h.counted.states

theorem Run.reflects (h : Run past g) : g.Reflects past := by
  induction h with
  | start s =>
    have hlt : 0 < (({} : Graph).intern s).1.size := (intern_spec wellFormed_empty s).1
    exact (Reflects.empty.intern s).pushFrontier hlt
  | call _ hc ih => exact ih.call hc

/-- After every history of calls on states that have a number, refused calls included, all that the graph
holds agrees with its history, and the next call is answered accordingly. -/
theorem Run.faithful_run (h : Run past g) : g.Faithful past :=
  h.reflects.faithful

/-- Two states, an edge that is added twice, and the start state, which is marked too early. -/
def earlyCalls : List Call :=
  [.intern { State.reset with pc := 2#16 }, .addEdge ⟨0, 1, .call⟩, .addEdge ⟨0, 1, .call⟩, .setExplored 0,
    .popFrontier, .setExplored 0]

/-- The marking is refused until the start state has left the frontier. -/
theorem Run.faithful_run_of_refusal :
    ∃ past g, Run past g ∧ past.reverse.map Prod.fst = .intern .reset :: .pushFrontier 0 :: earlyCalls ∧
      past.reverse.map Prod.snd = [.state 0, .done, .state 1, .edge 0 true, .edge 0 false, .refused,
        .popped (some 0), .done] ∧ g.Faithful past := by
  have hintern := (Run.start .reset).call (c := .intern { State.reset with pc := 2#16 }) trivial
  have hadd := hintern.call (c := .addEdge ⟨0, 1, .call⟩) ⟨by decide +kernel, by decide +kernel⟩
  have hagain := hadd.call (c := .addEdge ⟨0, 1, .call⟩) ⟨by decide +kernel, by decide +kernel⟩
  have hearly := hagain.call (c := .setExplored 0) (by decide +kernel : 0 < _)
  have hpop := hearly.call (c := .popFrontier) trivial
  have hmark := hpop.call (c := .setExplored 0) (by decide +kernel : 0 < _)
  exact ⟨_, _, hmark, rfl, by decide +kernel, hmark.faithful_run⟩

end Graph

end StackDepth
