import StackDepth.Json.Parser
import StackDepth.Json.Printer
import StackDepth.Numeral
import StackDepth.Report.Basic

/-!
# Reports as JSON

Writing gives every field in a fixed order; a field that is empty is left out where its absence means the
same. Reading is lenient in three ways: fields may be missing, unknown fields are ignored, and names match
without regard to case. A field that occurs again goes on from the earlier value, and `null` keeps a number,
a text or a record and empties a list, a histogram or a distribution. A value of another type and a number
that does not fit are errors.
-/

namespace StackDepth

/-! ### Writing -/

/-- A text field that is left out when empty. -/
def optionalText (name s : String) : List (String × Json) :=
  if s.isEmpty then [] else [(name, .string s)]

/-- A step. -/
def Step.toJson (s : Step) : Json :=
  .object ([("depth", .ofInt s.depth), ("source", .ofInt s.source), ("target", .ofInt s.target),
    ("pc", .ofNat s.pc.toNat), ("target_pc", .ofNat s.targetPc.toNat), ("kind", .string s.kind),
    ("weight", .ofInt s.weight)] ++ optionalText "instruction" s.instruction ++
    optionalText "state" s.state ++ if s.isFallthrough then [("fallthrough", .bool true)] else [])

/-- The counters. -/
def Stats.toJson (s : Stats) : Json :=
  .object [("states", .ofInt s.states), ("frontier", .ofInt s.frontier), ("explored", .ofInt s.explored),
    ("edges", .ofInt s.edges), ("pending_returns", .ofInt s.pendingReturns),
    ("pending_edges", .ofInt s.pendingEdges), ("returns", .ofInt s.returns),
    ("return_interrupts", .ofInt s.returnInterrupts), ("cyclic_regions", .ofInt s.cyclicRegions)]

/-- A distribution; the samples are names, in the order of texts. -/
def Distribution.toJson (d : Distribution) : Json :=
  let counts : Json :=
    match d.counts with
    | none => .null
    | some entries =>
        .object ((entries.map fun (v, n) => (Text.decimal v, Json.ofInt n)).mergeSort
          fun a b => a.1 ≤ b.1)
  .object [("name", .string d.name), ("counts", counts), ("count", .ofInt d.count),
    ("total", .ofInt d.total), ("min", .ofInt d.least), ("max", .ofInt d.greatest)]

/-- A list of steps that is left out when empty. -/
def optionalSteps (name : String) (steps : List Step) : List (String × Json) :=
  if steps.isEmpty then [] else [(name, .array (steps.map Step.toJson))]

/-- A distribution that may be missing. -/
def optionalDistribution (name : String) : Option Distribution → List (String × Json)
  | some d => [(name, d.toJson)]
  | none => []

/-- A report. -/
def Report.toJson (r : Report) : Json :=
  .object (optionalText "program" r.program ++
    [("outcome", .string r.outcome.name), ("depth", .ofInt r.depth)] ++
    optionalSteps "path" r.path ++ optionalSteps "cycle" r.cycle ++ [("stats", r.stats.toJson)] ++
    optionalDistribution "return_set_sizes" r.returnSetSizes ++
    optionalDistribution "states_per_pc" r.statesPerPc ++
    [("build_time", .ofInt r.buildTime), ("traverse_time", .ofInt r.traverseTime)])

/-- The text of a report, with a line feed at the end. -/
def Report.toText (r : Report) : String := r.toJson.pretty ++ "\n"

/-! ### Reading -/

namespace Reading

/-- A letter without regard to case. Two letters outside ASCII belong to ASCII ones. -/
def fold (c : Char) : Char :=
  if c.toNat = 0x17F then 's' else if c.toNat = 0x212A then 'k' else c.toLower

/-- A name without regard to case. -/
def foldName (s : String) : List Char := s.toList.map fold

/-- How a field changes a record: its name and what it does. -/
abbrev Field (α : Type) := String × (α → Json → Option α)

/-- The field with a name: one that matches exactly, or else without regard to case. -/
def findField {α : Type} (fields : List (Field α)) (name : String) : Option (Field α) :=
  match fields.find? (·.1 == name) with
  | some f => some f
  | none => fields.find? fun f => foldName f.1 == foldName name

/-- Changes a record by the fields of an object, one after the other. -/
def record {α : Type} (fields : List (Field α)) (old : α) : Json → Option α
  | .null => some old
  | .object entries =>
      entries.foldlM
        (fun r (name, value) =>
          match findField fields name with
          | some f => f.2 r value
          | none => some r)
        old
  | _ => none

/-- An integer of 64 bits. -/
def int (old : Int) : Json → Option Int
  | .null => some old
  | .number text => Numeral.signed? 10 64 text.toList
  | _ => none

/-- An address. -/
def address (old : Address) : Json → Option Address
  | .null => some old
  | .number text =>
      match Numeral.magnitude? 10 text.toList with
      | some n => if n < 65536 then some (BitVec.ofNat 16 n) else none
      | none => none
  | _ => none

/-- A text. -/
def text (old : String) : Json → Option String
  | .null => some old
  | .string s => some s
  | _ => none

/-- A truth value. -/
def truth (old : Bool) : Json → Option Bool
  | .null => some old
  | .bool b => some b
  | _ => none

/-- An outcome by its name. -/
def outcome (old : Outcome) : Json → Option Outcome
  | .null => some old
  | .string s => Outcome.ofName? s
  | _ => none

/-- A list that may be read more than once. The items that a shorter list leaves over are kept aside, and
come back when a longer one follows. -/
structure Slots (α : Type) where
  /-- The items. -/
  items : List α := []
  /-- What was left over. -/
  spare : List α := []

/-- A list whose items go on from the items of the earlier lists; an empty list and `null` forget them. -/
def list {α : Type} (fresh : α) (item : α → Json → Option α) (old : Slots α) : Json → Option (Slots α)
  | .null => some {}
  | .array [] => some {}
  | .array js =>
      let earlier := old.items ++ old.spare
      (js.zipIdx.mapM fun (j, i) => item (earlier.getD i fresh) j).map fun items =>
        { items, spare := earlier.drop items.length }
  | _ => none

/-- A value that may be missing. -/
def optional {α : Type} (fresh : α) (value : α → Json → Option α) (old : Option α) :
    Json → Option (Option α)
  | .null => some none
  | j => (value (old.getD fresh) j).map some

/-- One entry of a histogram. -/
def histogramEntry (old : List (Int × Int)) (name : String) (value : Json) :
    Option (List (Int × Int)) := do
  let sample ← Numeral.signed? 10 64 name.toList
  let n ← int 0 value
  some (Distribution.put sample n old)

/-- A histogram; its entries are added to the earlier ones. -/
def histogram (old : Option (List (Int × Int))) : Json → Option (Option (List (Int × Int)))
  | .null => some none
  | .object entries =>
      (entries.foldlM (fun acc (name, value) => histogramEntry acc name value) (old.getD [])).map some
  | _ => none

/-- The fields of a step. -/
def stepFields : List (Field Step) := [
  ("depth", fun s j => (int s.depth j).map fun v => { s with depth := v }),
  ("source", fun s j => (int s.source j).map fun v => { s with source := v }),
  ("target", fun s j => (int s.target j).map fun v => { s with target := v }),
  ("pc", fun s j => (address s.pc j).map fun v => { s with pc := v }),
  ("target_pc", fun s j => (address s.targetPc j).map fun v => { s with targetPc := v }),
  ("kind", fun s j => (text s.kind j).map fun v => { s with kind := v }),
  ("weight", fun s j => (int s.weight j).map fun v => { s with weight := v }),
  ("instruction", fun s j => (text s.instruction j).map fun v => { s with instruction := v }),
  ("state", fun s j => (text s.state j).map fun v => { s with state := v }),
  ("fallthrough", fun s j => (truth s.isFallthrough j).map fun v => { s with isFallthrough := v })]

/-- The fields of the counters. -/
def statsFields : List (Field Stats) := [
  ("states", fun s j => (int s.states j).map fun v => { s with states := v }),
  ("frontier", fun s j => (int s.frontier j).map fun v => { s with frontier := v }),
  ("explored", fun s j => (int s.explored j).map fun v => { s with explored := v }),
  ("edges", fun s j => (int s.edges j).map fun v => { s with edges := v }),
  ("pending_returns", fun s j => (int s.pendingReturns j).map fun v => { s with pendingReturns := v }),
  ("pending_edges", fun s j => (int s.pendingEdges j).map fun v => { s with pendingEdges := v }),
  ("returns", fun s j => (int s.returns j).map fun v => { s with returns := v }),
  ("return_interrupts",
    fun s j => (int s.returnInterrupts j).map fun v => { s with returnInterrupts := v }),
  ("cyclic_regions", fun s j => (int s.cyclicRegions j).map fun v => { s with cyclicRegions := v })]

/-- The fields of a distribution. -/
def distributionFields : List (Field Distribution) := [
  ("name", fun d j => (text d.name j).map fun v => { d with name := v }),
  ("counts", fun d j => (histogram d.counts j).map fun v => { d with counts := v }),
  ("count", fun d j => (int d.count j).map fun v => { d with count := v }),
  ("total", fun d j => (int d.total j).map fun v => { d with total := v }),
  ("min", fun d j => (int d.least j).map fun v => { d with least := v }),
  ("max", fun d j => (int d.greatest j).map fun v => { d with greatest := v })]

/-- A list of steps. -/
def steps : Slots Step → Json → Option (Slots Step) := list {} (record stepFields)

/-- A distribution that may be missing. -/
def distribution : Option Distribution → Json → Option (Option Distribution) :=
  optional {} (record distributionFields)

/-- A report that is being read: its lists are kept beside it. -/
structure Draft where
  /-- All but the lists. -/
  report : Report := {}
  /-- The path. -/
  path : Slots Step := {}
  /-- The cycle. -/
  cycle : Slots Step := {}

/-- The report that was read. -/
def Draft.finish (d : Draft) : Report := { d.report with path := d.path.items, cycle := d.cycle.items }

/-- A field of a report outside its lists. -/
def plain (name : String) (change : Report → Json → Option Report) : Field Draft :=
  (name, fun d j => (change d.report j).map fun report => { d with report })

/-- The fields of a report. -/
def reportFields : List (Field Draft) := [
  plain "program" fun r j => (text r.program j).map fun v => { r with program := v },
  plain "outcome" fun r j => (outcome r.outcome j).map fun v => { r with outcome := v },
  plain "depth" fun r j => (int r.depth j).map fun v => { r with depth := v },
  ("path", fun d j => (steps d.path j).map fun v => { d with path := v }),
  ("cycle", fun d j => (steps d.cycle j).map fun v => { d with cycle := v }),
  plain "stats" fun r j => (record statsFields r.stats j).map fun v => { r with stats := v },
  plain "return_set_sizes" fun r j =>
    (distribution r.returnSetSizes j).map fun v => { r with returnSetSizes := v },
  plain "states_per_pc" fun r j =>
    (distribution r.statesPerPc j).map fun v => { r with statesPerPc := v },
  plain "build_time" fun r j => (int r.buildTime j).map fun v => { r with buildTime := v },
  plain "traverse_time" fun r j => (int r.traverseTime j).map fun v => { r with traverseTime := v }]

end Reading

/-- The counters of a value. -/
def Stats.ofJson? (j : Json) : Option Stats := Reading.record Reading.statsFields {} j

/-- The report of a value. -/
def Report.ofJson? (j : Json) : Option Report :=
  (Reading.record Reading.reportFields {} j).map Reading.Draft.finish

/-- The report of the first value of a text. What follows the value is not looked at. -/
def Report.parse? (s : String) : Option Report := (Json.parse? s).bind ofJson?

end StackDepth
