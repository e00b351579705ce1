import Mathlib
import StackDepth.Graph.Dump
import StackDepth.Proofs.Analysis.Interning
import StackDepth.Proofs.State.Render

/-!
# What a dump tells

Every line of a dump is made of columns without blanks, many for a state and three for an edge. So the text
can be cut into its lines and columns again, and it tells the states with their kinds and the edges, each in
the order of their numbers. Of a state it tells what the state means, which is all there is to a canonical
state. The frontier and the return sets are not written.

* `Graph.dump_eq_iff`: when two dumps are the same text;
* `Graph.dump_determines`: what follows for graphs of canonical states, such as the analysis makes.
-/

namespace StackDepth

theorem StateKind.name_injective {k l : StateKind} (h : k.name = l.name) : k = l := by
  revert h
  cases k <;> cases l <;> decide

theorem EdgeKind.name_injective {k l : EdgeKind} (h : k.name = l.name) : k = l := by
  revert h
  cases k <;> cases l <;> decide

theorem EdgeKind.comma_not_mem_name (k : EdgeKind) : ',' ∉ k.name.toList := by
  cases k <;> decide

namespace Graph

variable {g h : Graph} {e f : Edge} {id : StateId}

/-! ### Columns -/

/-- The columns of the line of a state. -/
def stateColumns (g : Graph) (id : StateId) : List String :=
  ("[" ++ Text.decimal id ++ ":" ++ (g.node id).kind.name ++ "]") :: (g.state id).columns

/-- The columns of the line of an edge. -/
def edgeColumns (e : Edge) : List String :=
  ["[" ++ Text.decimal e.source ++ "]", "--(" ++ e.kind.name ++ "," ++ Text.decimal e.weight ++ ")-->",
    "[" ++ Text.decimal e.target ++ "]"]

/-- The columns of the lines of a dump. -/
def dumpColumns (g : Graph) : List (List String) :=
  (List.range g.size).map g.stateColumns ++ g.edges.toList.map edgeColumns

theorem joinWith_stateColumns (g : Graph) (id : StateId) :
    Text.joinWith " " (g.stateColumns id) = g.stateLine id := by
  have hne : (g.state id).columns ≠ [] := by simp [State.columns]
  rw [stateColumns, stateLine, ← List.singleton_append, Text.joinWith_append _ (by simp) hne,
    ← State.render_eq_joinWith]
  generalize Text.decimal id = number, (g.node id).kind.name = kind, (g.state id).render = state
  refine String.toList_injective ?_
  simp [Text.joinWith]

theorem joinWith_edgeColumns (e : Edge) : Text.joinWith " " (edgeColumns e) = edgeLine e := by
  rw [edgeColumns, edgeLine, edgeLineTo]
  generalize Text.decimal e.source = source, Text.decimal e.target = target, e.kind.name = kind,
    Text.decimal e.weight = weight
  refine String.toList_injective ?_
  simp [Text.joinWith]

theorem dumpLines_eq (g : Graph) : g.dumpLines = g.dumpColumns.map (Text.joinWith " ") := by
  rw [dumpLines, dumpColumns, List.map_append, List.map_map, List.map_map]
  refine congrArg₂ (· ++ ·) (List.map_congr_left fun id _ => ?_) (List.map_congr_left fun e _ => ?_)
  · rw [Function.comp_apply, joinWith_stateColumns]
  · rw [Function.comp_apply, joinWith_edgeColumns]

theorem isSolid_name (k : StateKind) : Text.IsSolid k.name := by
  cases k <;> decide

theorem isSolid_edgeName (k : EdgeKind) : Text.IsSolid k.name := by
  cases k <;> decide

theorem isSolid_dumpColumns (g : Graph) :
    ∀ ws ∈ g.dumpColumns, ws ≠ [] ∧ ∀ w ∈ ws, Text.IsSolid w := by
  have hmarks : ∀ m ∈ ["[", ":", "]", "--(", ",", ")-->"], Text.IsSolid m := by decide
  intro ws hws
  rcases List.mem_append.mp hws with hws | hws
  · obtain ⟨id, -, rfl⟩ := List.mem_map.mp hws
    refine ⟨by simp [stateColumns], List.forall_mem_cons.mpr ⟨?_, State.isSolid_columns _⟩⟩
    exact ((((hmarks "[" (by simp)).append (Numeral.isWord_decimal id).isSolid).append (hmarks ":" (by simp))).append
      (isSolid_name _)).append (hmarks "]" (by simp))
  · obtain ⟨e, -, rfl⟩ := List.mem_map.mp hws
    have hbracket : ∀ k : Int, Text.IsSolid ("[" ++ Text.decimal k ++ "]") := fun k =>
      ((hmarks "[" (by simp)).append (Numeral.isWord_decimal k).isSolid).append (hmarks "]" (by simp))
    refine ⟨by simp [edgeColumns], ?_⟩
    simp only [edgeColumns, List.forall_mem_cons]
    refine ⟨hbracket _, ?_, hbracket _, List.forall_mem_nil _⟩
    exact ((((hmarks "--(" (by simp)).append (isSolid_edgeName _)).append (hmarks "," (by simp))).append
      (Numeral.isWord_decimal _).isSolid).append (hmarks ")-->" (by simp))

theorem stateColumns_eq_iff : g.stateColumns id = h.stateColumns id ↔
    (g.state id).SameMeaning (h.state id) ∧ (g.node id).kind = (h.node id).kind := by
  rw [stateColumns, stateColumns, List.cons.injEq, State.columns_eq_iff, String.append_left_inj,
    String.append_right_inj, and_comm]
  exact and_congr_right' ⟨StateKind.name_injective, congrArg StateKind.name⟩

theorem edgeColumns_injective (heq : edgeColumns e = edgeColumns f) : e = f := by
  simp only [edgeColumns, List.cons.injEq, String.append_left_inj, String.append_right_inj] at heq
  obtain ⟨hsource, hkind, htarget, -⟩ := heq
  refine Edge.ext (Numeral.decimal_injective hsource) (Numeral.decimal_injective htarget) ?_
  -- the name of the kind ends at the comma in front of the weight
  have hcomma : e.kind.name.toList ++ ',' :: (Text.decimal e.weight).toList =
      f.kind.name.toList ++ ',' :: (Text.decimal f.weight).toList := by
    simpa using congrArg String.toList hkind
  have hname := Text.append_cons_inj e.kind.comma_not_mem_name f.kind.comma_not_mem_name hcomma
  exact EdgeKind.name_injective (String.toList_injective hname.1)

/-! ### Dumps -/

/-- Lines of states and lines of edges differ in the number of their columns. -/
theorem filter_dumpColumns (g : Graph) :
    g.dumpColumns.filter (fun ws => ws.length == 3) = g.edges.toList.map edgeColumns ∧
      g.dumpColumns.filter (fun ws => ws.length != 3) = (List.range g.size).map g.stateColumns := by
  have hstates : ∀ ws ∈ (List.range g.size).map g.stateColumns, ws.length = 37 := by
    intro ws hws
    obtain ⟨id, -, rfl⟩ := List.mem_map.mp hws
    rw [stateColumns, List.length_cons, State.length_columns]
  have hedges : ∀ ws ∈ g.edges.toList.map edgeColumns, ws.length = 3 := by
    intro ws hws
    obtain ⟨e, -, rfl⟩ := List.mem_map.mp hws
    rfl
  rw [dumpColumns, List.filter_append, List.filter_append]
  constructor
  · rw [List.filter_eq_nil_iff.mpr fun ws hws => by simp [hstates ws hws],
      List.filter_eq_self.mpr fun ws hws => by simp [hedges ws hws], List.nil_append]
  · rw [List.filter_eq_self.mpr fun ws hws => by simp [hstates ws hws],
      List.filter_eq_nil_iff.mpr fun ws hws => by simp [hedges ws hws], List.append_nil]

/-- Two dumps are the same text if and only if the graphs agree in the number of states, in the kind and the
meaning of each, and in the edges. -/
theorem dump_eq_iff : g.dump = h.dump ↔ g.size = h.size ∧
    (∀ id < g.size, (g.state id).SameMeaning (h.state id) ∧ (g.node id).kind = (h.node id).kind) ∧
      g.edges = h.edges := by
  constructor
  · intro hdump
    rw [dump, dump, dumpLines_eq, dumpLines_eq] at hdump
    have hcolumns := Text.columns_injective g.isSolid_dumpColumns h.isSolid_dumpColumns hdump
    have hedges := g.filter_dumpColumns.1
    have hstates := g.filter_dumpColumns.2
    rw [hcolumns, h.filter_dumpColumns.1] at hedges
    rw [hcolumns, h.filter_dumpColumns.2] at hstates
    have hsize : g.size = h.size := by simpa using (congrArg List.length hstates).symm
    refine ⟨hsize, fun id hid => ?_, ?_⟩
    · rw [hsize] at hstates
      exact stateColumns_eq_iff.mp
        (List.map_inj_left.mp hstates id (List.mem_range.mpr (hsize ▸ hid))).symm
    · exact Array.toList_inj.mp ((List.map_inj_right fun _ _ => edgeColumns_injective).mp hedges.symm)
  · rintro ⟨hsize, hstates, hedges⟩
    have hsame : (List.range g.size).map g.stateColumns = (List.range g.size).map h.stateColumns :=
      List.map_congr_left fun id hid => stateColumns_eq_iff.mpr (hstates id (List.mem_range.mp hid))
    rw [dump, dump, dumpLines_eq, dumpLines_eq, dumpColumns, dumpColumns, hsame, hsize, hedges]

/-! ### Canonical states -/

/-- All states are canonical. -/
def IsCanonical (g : Graph) : Prop := ∀ id < g.size, (g.state id).Canonical

/-- The dump of a graph of canonical states tells the states with their kinds and the edges. Of this sort are the
graphs that the analysis makes from a canonical start state. -/
theorem dump_determines :
    (∀ g h : Graph, g.IsCanonical → h.IsCanonical → g.dump = h.dump →
      g.size = h.size ∧
        (∀ id < g.size, g.state id = h.state id ∧ (g.node id).kind = (h.node id).kind) ∧
          g.edges = h.edges) ∧
    ∀ (code : Code) (limits : Limits) (around : Surroundings) (start : State), code.BitsInRange →
      start.Canonical → (analyze code limits around start).1.graph.IsCanonical := by
  constructor
  · intro g h hg hh hdump
    obtain ⟨hsize, hstates, hedges⟩ := dump_eq_iff.mp hdump
    refine ⟨hsize, fun id hid => ?_, hedges⟩
    obtain ⟨hsame, hkind⟩ := hstates id hid
    exact ⟨hsame.eq (hg id hid) (hh id (hsize ▸ hid)), hkind⟩
  · intro code limits around start hbits hstart id _
    rw [(sameShape_analyze code limits around start).state_eq]
    exact Building.run_holds hbits.preserves hstart id

/-- The same graph with other states on the frontier. -/
def withFrontier (g : Graph) (ids : List StateId) : Graph := { g with frontier := ids }

theorem IsCanonical.withFrontier (hg : g.IsCanonical) (ids : List StateId) : (g.withFrontier ids).IsCanonical :=
  hg

/-- The frontier is not written. -/
theorem dump_withFrontier (g : Graph) (ids : List StateId) : (g.withFrontier ids).dump = g.dump := rfl

/-- The graph of the program that copies an unknown bit. -/
def copyGraph : Graph := (analyze copyBit.code {} {} (State.reset.setReg 1 .unknown)).1.graph

theorem dump_determines_of_copy : copyGraph.IsCanonical ∧
    copyGraph.dump = (copyGraph.withFrontier [0]).dump ∧
      copyGraph.size = (copyGraph.withFrontier [0]).size ∧
        (∀ id < copyGraph.size, copyGraph.state id = (copyGraph.withFrontier [0]).state id ∧
          (copyGraph.node id).kind = ((copyGraph.withFrontier [0]).node id).kind) ∧
            copyGraph.edges = (copyGraph.withFrontier [0]).edges := by
  have hbits : copyBit.code.BitsInRange := Program.bitsInRange_code (by decide +kernel)
  have hcanonical : copyGraph.IsCanonical :=
    dump_determines.2 copyBit.code {} {} _ hbits (State.canonical_reset.setReg 1 .unknown)
  have hdump := (dump_withFrontier copyGraph [0]).symm
  exact ⟨hcanonical, hdump, dump_determines.1 _ _ hcanonical (hcanonical.withFrontier [0]) hdump⟩

end Graph

end StackDepth
