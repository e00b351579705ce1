import StackDepth.Command.Task
import StackDepth.Duration

/-!
# The program

Reads the files that an invocation names, carries out its task and the actions that follow, and ends with
status 1 after an error. An analysis is built step by step here, so that its memory and its progress can
be looked at on the way.
-/

namespace StackDepth

namespace Command

/-! ### Files -/

/-- Why a file cannot be used. -/
def fileFault : IO.Error → FileFault
  | .noFileOrDirectory .. => .missing
  | .inappropriateType .. => .isDirectory
  | .permissionDenied .. => .other "permission denied"
  | e => .other (toString e)

/-- Reads a file. -/
def readFile (path : String) : IO (Except FileError String) := do
  try return .ok (← IO.FS.readFile path)
  catch e =>
    let fault := fileFault e
    return .error { path, fault, opened := fault = .isDirectory }

/-- Reads files. -/
def readFiles (paths : List String) : IO Files := do
  let contents ← paths.mapM fun path => return (path, ← readFile path)
  return fun path => (contents.lookup path).getD (.error { path })

/-- Carries out an action. -/
def act : Action → IO (Option FileError)
  | .print text => do
      IO.print text
      return none
  | .log lines => do
      lines.forM fun line => IO.eprintln line
      return none
  | .write path content => do
      try
        IO.FS.writeBinFile path (stored path content)
        return none
      catch e => return some { path, fault := fileFault e }

/-- Carries out actions up to the first that fails. -/
def perform : List Action → IO (Option FileError)
  | [] => return none
  | a :: rest => do
      match ← act a with
      | none => perform rest
      | some e => return some e

/-- A value and the nanoseconds that it took to compute it. -/
def measured {α : Type} (f : Unit → α) : IO (α × Nat) := do
  let start ← IO.monoNanosNow
  let a ← IO.lazyPure f
  let done ← IO.monoNanosNow
  return (a, done - start)

/-! ### Analyses -/

/-- The bytes of memory in use, zero if the system does not tell. -/
def memoryInUse : IO Nat := do
  match ← readFile "/proc/self/statm" with
  | .error _ => return 0
  | .ok text => return ((text.splitOn " ").getD 1 "").toNat?.getD 0 * 4096

/-- The lines of progress between two column headers. -/
def headerEvery : Nat := 10

/-- Shows the progress once its time has come: the time of the next line, and the number of lines. -/
def showProgress (interval due shown : Nat) (b : Building) : IO (Nat × Nat) := do
  let now ← IO.monoNanosNow
  if now < due then return (due, shown)
  if shown % headerEvery = 0 then IO.eprintln Stats.header
  IO.eprintln b.work.stats.line
  return (now + interval, shown + 1)

/-- Builds the state space; every so many steps the memory is looked at and the progress is shown. -/
partial def build (j : Job) (due shown memory steps : Nat) (b : Building) :
    IO (Building × Except RunError Ending) := do
  let look := steps % 256 = 0
  let memory ← if look && j.limits.memoryLimit ≠ 0 then memoryInUse else pure memory
  let (due, shown) ←
    match j.monitor with
    | some interval => if look then showProgress interval.toNat due shown b else pure (due, shown)
    | none => pure (due, shown)
  match b.step j.code j.limits { memoryUse := fun _ => memory } with
  | (b, .goOn) => build j due shown memory (steps + 1) b
  | (b, .ended how) => return (b, .ok how)
  | (b, .failed error) => return (b, .error error)

/-- Makes an analysis. -/
def runJob (j : Job) : IO (List Action × Option Error) := do
  let start ← IO.monoNanosNow
  let due := start + (j.monitor.getD 0).toNat
  match ← build j due 0 0 0 { work := .start State.reset } with
  | (b, .error error) => return j.finish (b.work, .error error) 0 0
  | (b, .ok how) =>
      let built ← IO.monoNanosNow
      let ((x, r), traverse) ← measured fun _ => b.work.conclude j.code how
      return j.finish (x, .ok r) (built - start : Nat) traverse

/-- Carries out a task. -/
def runTask : Task → IO (List Action × Option Error)
  | .job j => runJob j
  | .selfCheck samples => do
      let (result, elapsed) ← measured fun _ => SelfCheck.run [] samples
      return finishSelfCheck result (Duration.render elapsed)
  | .text s => return ([.print s], none)

/-- Runs the program: the error it ends with. -/
def runProgram (args : List String) : IO (Option Error) := do
  match Invocation.parse args with
  | .error cause => return some (.usage cause)
  | .ok invocation =>
      let files ← readFiles invocation.inputs
      match Task.ofInvocation files invocation with
      | .error e => return some e
      | .ok task =>
          let (actions, failed) ← runTask task
          match ← perform actions with
          | some cause => return some (.file cause)
          | none => return failed

end Command

end StackDepth

/-- Runs the program and tells of an error. -/
def main (args : List String) : IO UInt32 := do
  match ← StackDepth.Command.runProgram args with
  | none => return 0
  | some e =>
      IO.eprintln e.line
      return 1
