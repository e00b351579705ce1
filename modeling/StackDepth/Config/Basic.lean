import StackDepth.Analysis.Build
import StackDepth.Config.Level
import StackDepth.Duration
import StackDepth.Program.Annotation
import StackDepth.Size

/-!
# Configurations

A configuration holds the settings of an analysis as they were written. `Config.limits` and
`Config.reserve` say what they mean for an analysis; sizes are read there, and a size that cannot be read
is an error of the configuration.
-/

namespace StackDepth

/-- The settings of an analysis. -/
structure Config where
  /-- The name of the log level. -/
  logLevel : String := "info"
  /-- The number of states allowed; no limit if it is not positive. -/
  maxStates : Int := 0
  /-- The memory allowed, as a size; no limit if it is empty. -/
  memoryLimit : String := ""
  /-- The memory set aside, as a size; the default if it is empty. -/
  reserveBytes : String := ""
  /-- The distance between interrupt vectors. -/
  vectorSize : Int := 4
  /-- The nanoseconds between two lines of progress. -/
  monitorInterval : Int := Duration.second
  /-- Reports show the path. -/
  showPath : Bool := true
  /-- Reports fold steps that only fall through. -/
  traceSummary : Bool := false
  /-- The targets of indirect transfers. -/
  annotations : List Annotation := []
deriving Inhabited

namespace Config

/-- Why a configuration cannot be used. -/
inductive Error where
  /-- The text is no configuration at all. -/
  | malformed
  /-- There is no such log level. -/
  | level (cause : BadLevel)
  /-- The memory limit is no size. -/
  | memoryLimit (cause : Size.Error)
  /-- The memory set aside is no size. -/
  | reserveBytes (cause : Size.Error)
  /-- An annotation has no site. -/
  | missingSite (index : Nat)
deriving Inhabited

/-- The text of an error. -/
def Error.message : Error → String
  | .malformed => "could not unmarshal config: yaml: unexpected content"
  | .level cause => "log-level: " ++ cause.message
  | .memoryLimit cause => "memory-limit: " ++ cause.message
  | .reserveBytes cause => "reserve-bytes: " ++ cause.message
  | .missingSite index => "indirect-targets[" ++ Text.decimal index ++ "]: missing site"

/-- The log level. -/
def level (c : Config) : Except Error LogLevel := (LogLevel.parse c.logLevel).mapError .level

/-- The bytes of a size, none if it is empty. -/
def bytes (s : String) : Except Size.Error Nat := if s.isEmpty then .ok 0 else Size.parse s

/-- The bytes of memory allowed. -/
def memoryBytes (c : Config) : Except Error Nat := (bytes c.memoryLimit).mapError .memoryLimit

/-- The bytes of memory set aside as written. -/
def reservedBytes (c : Config) : Except Error Nat := (bytes c.reserveBytes).mapError .reserveBytes

/-- The bytes set aside if nothing is said. -/
def defaultReserve : Int := 1048576

/-- The bytes of memory set aside; zero bytes are written as a negative number, since zero asks for the
default. -/
def reserve (c : Config) : Except Error Int := do
  let n ← c.reservedBytes
  return if c.reserveBytes.isEmpty then defaultReserve else if n = 0 then -1 else wrap64 n

/-- The number of explored states between two checks of the limits. -/
def checkEvery : Int := 4096

/-- The limits of an analysis. -/
def limits (c : Config) : Except Error Limits := do
  let memoryLimit ← c.memoryBytes
  let _ ← c.reservedBytes
  return { vectorSize := c.vectorSize, maxStates := c.maxStates, memoryLimit, checkEvery }

/-- Puts the default in the place of settings that make no sense. -/
def normalize (c : Config) : Config :=
  { c with
    logLevel := if c.logLevel.isEmpty then "info" else c.logLevel
    vectorSize := if c.vectorSize ≤ 0 then 4 else c.vectorSize
    monitorInterval := if c.monitorInterval ≤ 0 then Duration.second else c.monitorInterval }

/-- The configuration itself, if all of it can be used. -/
def validate (c : Config) : Except Error Config := do
  let _ ← c.level
  let _ ← c.memoryBytes
  let _ ← c.reservedBytes
  match c.annotations.findIdx? (·.site.isEmpty) with
  | some index => throw (.missingSite index)
  | none => return c

end Config

end StackDepth
