import StackDepth.Analysis.Event
import StackDepth.Text.LetterCase
import StackDepth.Text.Quoted

/-!
# Names of log levels

A log level is named in either case of letters.
-/

namespace StackDepth

/-- A text that names no log level. -/
structure BadLevel where
  /-- The text. -/
  text : String
deriving DecidableEq, Inhabited

/-- The text of the error. -/
def BadLevel.message (e : BadLevel) : String := "not a valid logrus Level: " ++ Text.quoted e.text

/-- The level that a text names; a warning has a short name too. -/
def LogLevel.parse (s : String) : Except BadLevel LogLevel :=
  match Text.toLower s with
  | "warn" => .ok .warning
  | lower =>
      match LogLevel.all.find? (·.name == lower) with
      | some l => .ok l
      | none => .error ⟨s⟩

end StackDepth
