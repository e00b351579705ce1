import Mathlib
import StackDepth.Proofs.Analysis.Truncation
import StackDepth.Proofs.Assembly.Ranges
import StackDepth.Proofs.Transfer.Canonical

/-!
# Interned states are canonical

The analysis makes states in few ways: it executes instructions, enters handlers, follows calls and
resumes callers. A property of states that all of these keep holds of every interned state, whatever the
order of the work, and also when the analysis is cut short or fails. Being canonical is such a property,
so numbers identify states up to what they mean.

* `Code.Preserves`: what keeps a property of states;
* `Exploration.Holds`: all interned states have it, from one addition to whole turns;
* `analyze_identifies_meaning`: two states have the same number if and only if they mean the same.
-/

namespace StackDepth

/-- All that the analysis does with states keeps a property. -/
structure Code.Preserves (code : Code) (P : State → Prop) : Prop where
  /-- The state that numbers out of use stand for. -/
  reset : P .reset
  /-- The program counter may be moved. -/
  goto : ∀ s pc, P s → P { s with pc }
  /-- Interrupts may be enabled and disabled. -/
  setInterrupts : ∀ s enabled, P s → P (s.setFlag Flag.I (.ofBool enabled))
  /-- Executing what stands at the program counter. -/
  step : ∀ s cell t effect, P s → code.fetch s.pc = .ok cell →
    s.stepCell code.next cell = (t, .ok effect) → P t ∧ ∀ u, effect.taken? = some u → P u

/-- All interned states have a property. -/
def Exploration.Holds (P : State → Prop) (x : Exploration) : Prop := ∀ id, P (x.graph.state id)

/-- Interning adds at most the state that is interned. -/
theorem Graph.state_intern (g : Graph) (s : State) (id : StateId) :
    (g.intern s).1.state id = g.state id ∨ (g.intern s).1.state id = s := by
  unfold intern
  split
  · exact .inl rfl
  · simp only [state, Cache.state?_push]
    split
    · exact .inr rfl
    · exact .inl rfl

namespace Exploration

variable {code : Code} {vectors : Int} {P : State → Prop} {x : Exploration}

/-- Adding an edge interns its target and changes nothing else about states. -/
theorem state_addEdge (x : Exploration) (src : StateId) (kind : EdgeKind) (s : State) (id : StateId) :
    (x.addEdge src kind s).graph.state id = (x.graph.intern s).1.state id := by
  have hcache : ∀ (g : Graph) (t : StateId), (g.addEdge src t kind).1.cache = g.cache := by
    intro g t
    unfold Graph.addEdge
    split
    · split
      · rfl
      · dsimp only
        split <;> rfl
    · rfl
  have hschedule : ∀ (y : Exploration) (e : EdgeId) (t : StateId),
      (y.schedule e t).graph.cache = y.graph.cache := by
    intro y e t
    unfold schedule
    split
    · rfl
    · exact (y.graph.sameShape_pushFrontier t).cache_eq
  have hadded := hcache (x.graph.intern s).1 (x.graph.intern s).2
  have hall : (x.addEdge src kind s).graph.cache = (x.graph.intern s).1.cache := by
    unfold addEdge
    dsimp only
    split
    · next heq =>
      rw [hschedule]
      exact (congrArg (fun p => p.1.cache) heq).symm.trans hadded
    · next heq => exact (congrArg (fun p => p.1.cache) heq).symm.trans hadded
  rw [Graph.state, hall, ← Graph.state]

theorem Holds.addEdge (hx : x.Holds P) (src : StateId) (kind : EdgeKind) {s : State} (hs : P s) :
    (x.addEdge src kind s).Holds P := by
  intro id
  rw [state_addEdge]
  rcases x.graph.state_intern s id with heq | heq
  · rw [heq]
    exact hx id
  · rw [heq]
    exact hs

/-- Adding edges one after the other. -/
theorem Holds.foldl {α : Type} {add : Exploration → α → Exploration} (hx : x.Holds P) (as : List α)
    (hadd : ∀ y a, y.Holds P → a ∈ as → (add y a).Holds P) : (as.foldl add x).Holds P := by
  induction as generalizing x with
  | nil => exact hx
  | cons a as ih =>
    exact ih (hadd x a hx List.mem_cons_self)
      fun y b hy hb => hadd y b hy (List.mem_cons_of_mem a hb)

theorem Holds.withGraph (hx : x.Holds P) {g : Graph} (hshape : x.graph.SameShape g) :
    ({ x with graph := g } : Exploration).Holds P := by
  intro id
  rw [hshape.state_eq]
  exact hx id

theorem Holds.note (hx : x.Holds P) (e : Event) : (x.note e).Holds P := hx

/-! ### Propagation -/

theorem Holds.stitch (hx : x.Holds P) (hP : code.Preserves P) (a : Edge) (rets : List StateId) :
    (x.stitch code a rets).1.Holds P := by
  unfold Exploration.stitch
  split
  · exact hx
  · refine hx.foldl rets fun y r hy _ => hy.addEdge _ _ (hP.goto _ _ ?_)
    split
    · exact hP.setInterrupts _ true (hy r)
    · exact hy r

theorem Holds.walkEdges (hx : x.Holds P) (hP : code.Preserves P) (delta : List StateId)
    (es : List EdgeId) (work : List WalkItem) :
    (Exploration.walkEdges code delta es x work).1.Holds P := by
  induction es generalizing x work with
  | nil => exact hx
  | cons e es ih =>
    rw [Exploration.walkEdges]
    split
    · have hstitch := hx.stitch hP (x.graph.edge e) delta
      split
      · next y heq =>
        rw [heq] at hstitch
        exact ih hstitch work
      · next y error heq =>
        rw [heq] at hstitch
        exact hstitch
    · exact ih hx _

theorem Holds.walk (hx : x.Holds P) (hP : code.Preserves P) (fuel : Nat) (work : List WalkItem) :
    (Exploration.walk code fuel work x).1.Holds P := by
  induction fuel generalizing x work with
  | zero => exact hx
  | succ fuel ih =>
    cases work with
    | nil => exact hx
    | cons item work =>
      have habsorb : (x.absorb item.node item.delta).1.Holds P :=
        hx.withGraph (x.graph.sameShape_setReturns _ _)
      rw [Exploration.walk]
      generalize x.absorb item.node item.delta = p at habsorb
      obtain ⟨y, fresh⟩ := p
      cases fresh with
      | nil => exact ih habsorb work
      | cons r rs =>
        have hedges := habsorb.walkEdges hP (r :: rs) (y.graph.incoming item.node) work
        dsimp only
        split
        · next z work' heq =>
          rw [heq] at hedges
          exact ih hedges work'
        · next z work' error heq =>
          rw [heq] at hedges
          exact hedges

theorem Holds.propagate (hx : x.Holds P) (hP : code.Preserves P) (id : StateId) (rets : List StateId) :
    (x.propagate code id rets).1.Holds P :=
  hx.walk hP walkBound [⟨id, rets⟩]

theorem Holds.propagateEdge (hx : x.Holds P) (hP : code.Preserves P) (e : EdgeId) :
    (x.propagateEdge code e).1.Holds P := by
  unfold Exploration.propagateEdge
  dsimp only
  split
  · exact hx
  · split
    · exact (hx.note _).stitch hP _ _
    · exact (hx.note _).propagate hP _ _

theorem Holds.propagateNext (hx : x.Holds P) (hP : code.Preserves P) :
    (x.propagateNext code).1.Holds P := by
  unfold Exploration.propagateNext
  split
  · next id rest _ =>
    have hrest : ({ x with newReturns := rest, pendingReturns := x.pendingReturns - 1 } :
        Exploration).Holds P := hx
    exact (hrest.note _).propagate hP id [id]
  · next e rest _ _ =>
    have hrest : ({ x with newEdges := rest, pendingEdges := x.pendingEdges - 1 } :
        Exploration).Holds P := hx
    exact hrest.propagateEdge hP e
  · exact hx

/-! ### Exploring a state -/

theorem Holds.interrupts (hx : x.Holds P) (hP : code.Preserves P) (id : StateId) {s : State} (hs : P s) :
    (x.interrupts vectors id s).Holds P :=
  hx.foldl _ fun _ _ hy _ => hy.addEdge _ _ (hP.goto _ _ (hP.setInterrupts s false hs))

theorem Holds.addTargets (hx : x.Holds P) (hP : code.Preserves P) (id : StateId) (kind : EdgeKind)
    {s : State} (hs : P s) (targets : List Address) : (x.addTargets id kind s targets).Holds P :=
  hx.foldl _ fun _ _ hy _ => hy.addEdge _ _ (hP.goto _ _ hs)

theorem Holds.apply (hx : x.Holds P) (hP : code.Preserves P) (id : StateId) {s : State} {e : Effect}
    (hs : P s) (htaken : ∀ u, e.taken? = some u → P u) : (x.apply code id s e).1.Holds P := by
  cases e with
  | next taken =>
    refine hx.foldl _ fun y t hy ht => hy.addEdge _ _ ?_
    rcases List.mem_append.mp ht with ht | ht
    · exact htaken t (Option.mem_toList.mp ht)
    · rwa [List.mem_singleton.mp ht]
  | push => exact hx.addEdge _ _ hs
  | pop => exact hx.addEdge _ _ hs
  | halt => exact hx
  | call target => exact hx.addEdge _ _ (hP.goto _ _ hs)
  | indirectCall =>
    rw [Exploration.apply]
    split
    · exact hx.addTargets hP _ _ hs _
    · exact hx
  | indirectJump =>
    rw [Exploration.apply]
    split
    · exact hx.addTargets hP _ _ hs _
    · exact hx
  | ret => exact hx.withGraph (x.graph.sameShape_setKind _ _)
  | reti => exact hx.withGraph (x.graph.sameShape_setKind _ _)

theorem Holds.explore (hx : x.Holds P) (hP : code.Preserves P) (id : StateId) :
    (x.explore code vectors id).1.Holds P := by
  unfold Exploration.explore
  split
  · exact hx
  · have hmarked := hx.withGraph (x.graph.sameShape_markExplored id)
    have hs := hmarked id
    dsimp only at hs ⊢
    split
    · exact hmarked
    · next cell hfetch =>
      unfold Exploration.execute
      dsimp only
      split
      · exact (hmarked.note _).interrupts hP id hs
      · next t effect hstep =>
        obtain ⟨ht, htaken⟩ := hP.step _ _ _ _ hs hfetch hstep
        exact ((hmarked.note _).interrupts hP id hs).apply hP id ht htaken

theorem Holds.turn (hx : x.Holds P) (hP : code.Preserves P) : (x.turn code vectors).1.Holds P := by
  unfold Exploration.turn
  split
  · exact Holds.explore (hx.withGraph (x.graph.sameShape_dropFrontier _)) hP _
  · split
    · exact hx
    · exact hx.propagateNext hP

theorem holds_start {s : State} (hP : code.Preserves P) (hs : P s) : (start s).Holds P := by
  intro id
  rw [start, Graph.start_eq, (Graph.sameShape_pushFrontier _ _).state_eq]
  rcases Graph.state_intern {} s id with heq | heq
  · exact heq.symm ▸ hP.reset
  · exact heq.symm ▸ hs

end Exploration

/-! ### Whole runs -/

namespace Building

open Exploration

variable {code : Code} {limits : Limits} {around : Surroundings} {P : State → Prop} {start : State}

theorem step_holds {b b' : Building} {v : Verdict} (hP : code.Preserves P) (hb : b.work.Holds P)
    (h : b.step code limits around = (b', v)) : b'.work.Holds P := by
  have hturn : (b.work.turn code limits.vectors).1.Holds P := hb.turn hP
  rcases step_cases h with heq | ⟨-, e, ⟨-, -, heq⟩ | ⟨-, heq⟩⟩
  · rwa [← heq] at hturn
  · rw [heq]
    exact hturn
  · rw [heq]
    exact hb

theorem Boundary.holds {b : Building} (hP : code.Preserves P) (hstart : P start)
    (h : Boundary code limits around start b) : b.work.Holds P := by
  induction h with
  | start => exact holds_start hP hstart
  | next _ hstep ih => exact step_holds hP ih hstep

theorem run_holds (hP : code.Preserves P) (hstart : P start) :
    (run code limits around start).1.work.Holds P :=
  run_keeps (P := fun b => b.work.Holds P) (holds_start hP hstart) (step_holds hP)

end Building

theorem sameShape_analyze (code : Code) (limits : Limits) (around : Surroundings) (start : State) :
    (Building.run code limits around start).1.work.graph.SameShape
      (analyze code limits around start).1.graph := by
  rcases graph_analyze code limits around start with heq | heq
  · rw [heq]
    exact .refl _
  · rw [heq]
    exact Graph.sameShape_deleteReturns _

/-! ### Numbers and meaning -/

/-- Every bit number in the code is one of the eight. -/
def Code.BitsInRange (code : Code) : Prop :=
  ∀ pc i, code.fetch pc = .ok (.instr i) → i.BitInRange

theorem Code.BitsInRange.preserves {code : Code} (h : code.BitsInRange) :
    code.Preserves State.Canonical where
  reset := State.canonical_reset
  goto _ pc hs := hs.goto pc
  setInterrupts _ enabled hs := hs.setFlag (Tribyte.canonical_ofBool enabled) (by decide)
  step s cell t effect hs hfetch hstep := by
    cases cell with
    | instr i => exact hs.step code.next (h s.pc i hfetch) hstep
    | reserved n => simp [State.stepCell] at hstep

/-- The bit numbers of a program can be checked slot by slot. -/
theorem Program.bitsInRange_code {p : Program}
    (h : ∀ slot ∈ p.flash.slots, ∀ i ∈ slot, i.BitInRange) : p.code.BitsInRange := by
  intro pc i hfetch
  rw [code] at hfetch
  dsimp only at hfetch
  obtain ⟨j, hj, hcell⟩ := Assembly.exists_of_map_ok hfetch
  obtain rfl := Cell.instr.inj hcell
  obtain ⟨w, hw⟩ := Assembly.at_of_fetch hj
  rw [Flash.at?, Option.join_eq_some_iff] at hw
  exact h _ (Array.mem_of_getElem? hw) j rfl

/-- All states are canonical, and two of them have the same number if and only if they mean the same. -/
structure Graph.IdentifiesMeaning (g : Graph) : Prop where
  /-- Every state is in canonical form. -/
  canonical : ∀ id < g.size, (g.state id).Canonical
  /-- States that mean the same have one number. -/
  eq_iff : ∀ i < g.size, ∀ j < g.size, i = j ↔ (g.state i).SameMeaning (g.state j)

theorem Graph.WellFormed.identifiesMeaning {g : Graph} (hg : g.WellFormed)
    (hcanonical : ∀ id, (g.state id).Canonical) : g.IdentifiesMeaning where
  canonical id _ := hcanonical id
  eq_iff i hi j hj := by
    constructor
    · rintro rfl
      exact .refl _
    · intro h
      exact hg.state_injective hi hj (h.eq (hcanonical i) (hcanonical j))

/-- A beginning of the graph has fewer states under the same numbers. -/
theorem Graph.IdentifiesMeaning.of_grows {g g' : Graph} (h : g'.IdentifiesMeaning)
    (hgrows : g.Grows g') : g.IdentifiesMeaning where
  canonical id hid := by
    rw [← hgrows.state_eq id hid]
    exact h.canonical id (hid.trans_le hgrows.size_le)
  eq_iff i hi j hj := by
    rw [← hgrows.state_eq i hi, ← hgrows.state_eq j hj]
    exact h.eq_iff i (hi.trans_le hgrows.size_le) j (hj.trans_le hgrows.size_le)

/-- All that the analysis does with states leads from canonical states to canonical states. So, from a
canonical start state, all states of the graph are canonical at the beginning of every turn and in
whatever way the analysis ends, and also inside a turn, where the graph is a beginning of a later one.
Two of them have the same number if and only if they stand at the same address and cover the same bytes
in every register. -/
theorem analyze_identifies_meaning {code : Code} (hbits : code.BitsInRange) {start : State}
    (hstart : start.Canonical) (limits : Limits) (around : Surroundings) :
    code.Preserves State.Canonical ∧
    (∀ b, Building.Boundary code limits around start b → b.work.graph.IdentifiesMeaning) ∧
    (analyze code limits around start).1.graph.IdentifiesMeaning ∧
    ∀ g : Graph, g.Grows (analyze code limits around start).1.graph → g.IdentifiesMeaning := by
  have hP := hbits.preserves
  have hrun : (Building.run code limits around start).1.work.Holds State.Canonical :=
    Building.run_holds hP hstart
  have hshape := sameShape_analyze code limits around start
  have hend : (analyze code limits around start).1.graph.IdentifiesMeaning := by
    refine (hshape.wellFormed (Building.run_balanced start).wellFormed).identifiesMeaning fun id => ?_
    rw [hshape.state_eq]
    exact hrun id
  exact ⟨hP, fun b hb => hb.balanced.wellFormed.identifiesMeaning (hb.holds hP hstart), hend,
    fun g hg => hend.of_grows hg⟩

/-- A program that copies a bit from one register to another. -/
def copyBit : Program :=
  .ofInstructions [{ op := .BST, rr := 1, bit := 3 }, { op := .BLD, rr := 2, bit := 5 },
    { op := .BREAK }]

/-- The three states of the program that copies an unknown bit are canonical and differ in meaning. -/
theorem analyze_identifies_meaning_of_copy :
    (State.reset.setReg 1 .unknown).Canonical ∧
      (analyze copyBit.code {} {} (State.reset.setReg 1 .unknown)).1.graph.size = 3 ∧
      (analyze copyBit.code {} {} (State.reset.setReg 1 .unknown)).1.graph.IdentifiesMeaning := by
  have hbits : copyBit.code.BitsInRange := Program.bitsInRange_code (by decide +kernel)
  have hstart := State.canonical_reset.setReg 1 .unknown
  have hsize : (analyze copyBit.code {} {} (State.reset.setReg 1 .unknown)).1.graph.size = 3 := by
    decide +kernel
  exact ⟨hstart, hsize, (analyze_identifies_meaning hbits hstart {} {}).2.2.1⟩

end StackDepth
