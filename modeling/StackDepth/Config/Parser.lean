import StackDepth.Config.Basic
import StackDepth.Yaml.Parser
import StackDepth.Yaml.Value

/-!
# Reading configurations

A configuration is a YAML mapping. Settings that it does not name keep their defaults, and keys that name
no setting are passed over.
-/

namespace StackDepth

namespace Config

open Yaml

/-- The keys of an annotation. -/
def annotationFields : List (Fit.Field Annotation) := [
  ⟨"site", fun a n => (Fit.text a.site n).map fun site => { a with site }⟩,
  ⟨"targets", fun a n => (Fit.list "" Fit.text a.targets n).map fun targets => { a with targets }⟩]

/-- The keys of a configuration; `limit` bounds how often mappings bring in others. -/
def fields (limit : Nat) : List (Fit.Field Config) := [
  ⟨"log-level", fun c n => (Fit.text c.logLevel n).map fun logLevel => { c with logLevel }⟩,
  ⟨"max-states", fun c n => (Fit.int c.maxStates n).map fun maxStates => { c with maxStates }⟩,
  ⟨"memory-limit", fun c n => (Fit.text c.memoryLimit n).map fun memoryLimit => { c with memoryLimit }⟩,
  ⟨"reserve-bytes", fun c n =>
    (Fit.text c.reserveBytes n).map fun reserveBytes => { c with reserveBytes }⟩,
  ⟨"vector-size", fun c n => (Fit.int c.vectorSize n).map fun vectorSize => { c with vectorSize }⟩,
  ⟨"monitor-interval", fun c n =>
    (Fit.duration c.monitorInterval n).map fun monitorInterval => { c with monitorInterval }⟩,
  ⟨"show-path", fun c n => (Fit.truth c.showPath n).map fun showPath => { c with showPath }⟩,
  ⟨"trace-summary", fun c n =>
    (Fit.truth c.traceSummary n).map fun traceSummary => { c with traceSummary }⟩,
  ⟨"indirect-targets", fun c n =>
    (Fit.list {} (Fit.record annotationFields limit) c.annotations n).map fun annotations =>
      { c with annotations }⟩]

/-- Reads a configuration. -/
def parse (text : String) : Except Error Config :=
  let limit := text.length
  match (Yaml.parse? text).bind (Fit.record (fields limit) limit {}) with
  | none => .error .malformed
  | some c => c.normalize.validate

end Config

end StackDepth
