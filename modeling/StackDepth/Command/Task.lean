import StackDepth.Analysis.Report
import StackDepth.Assembly.Assemble
import StackDepth.Assembly.Listing
import StackDepth.Command.Invocation
import StackDepth.Command.Place
import StackDepth.Config.Parser
import StackDepth.Graph.Dump
import StackDepth.Report.Json
import StackDepth.Report.Snapshot
import StackDepth.Report.Text
import StackDepth.SelfCheck.Check
import StackDepth.Zstd

/-!
# Tasks

An invocation and the files it names make a task: an analysis with a purpose, a self-check, or a text that
is complete already. What a task does to the outside is a list of actions. Nothing here touches the outside;
the times and the memory that an analysis takes come in as arguments.

Errors of an invocation are found in this order: the configuration, the log level, the annotations of the
command line, the program, what the annotations name, and the limits.
-/

namespace StackDepth

namespace Command

/-! ### Actions -/

/-- What a task does to the outside. -/
inductive Action where
  /-- Prints a text. -/
  | print (text : String)
  /-- Adds lines to the log. -/
  | log (lines : List String)
  /-- Creates a file; its content is compressed if its name says so. -/
  | write (path : String) (content : ByteArray)
deriving Inhabited

/-- The name of a file asks for compression. -/
def isCompressed (path : String) : Bool := ".zst".toList.isSuffixOf path.toList

/-- The bytes that a file of this name has for a content. -/
def stored (path : String) (content : ByteArray) : ByteArray :=
  if isCompressed path then Zstd.frame content else content

/-- The content that the bytes of a file of this name stand for. -/
def contents? (path : String) (bytes : ByteArray) : Option ByteArray :=
  if isCompressed path then Zstd.contents? bytes else some bytes

/-! ### Errors -/

/-- Why the program ends without success. -/
inductive Error where
  /-- The arguments cannot be understood. -/
  | usage (cause : UsageError)
  /-- The file of the configuration cannot be used. -/
  | configFile (cause : FileError)
  /-- The file of the configuration holds none that can be used. -/
  | config (path : String) (cause : Config.Error)
  /-- A setting cannot be used. -/
  | setting (cause : Config.Error)
  /-- There is no such log level. -/
  | level (cause : BadLevel)
  /-- An annotation of the command line has the wrong form. -/
  | badTargets (cause : BadAnnotation)
  /-- A file cannot be used. -/
  | file (cause : FileError)
  /-- The program cannot be assembled. -/
  | assembly (path : String) (cause : Assembly.Error)
  /-- An annotation names something that is not in the program. -/
  | annotate (cause : AnnotateError)
  /-- The analysis failed. -/
  | run (cause : RunError)
  /-- The self-check found counterexamples. -/
  | counterexamples (count : Nat)
  /-- The self-check used a register that does not exist. -/
  | register
deriving Inhabited

/-- The text of an error. -/
def Error.message : Error → String
  | .usage cause => cause.message
  | .configFile cause => "could not read config file: " ++ cause.message
  | .config path cause => path ++ ": " ++ cause.message
  | .setting cause => cause.message
  | .level cause => cause.message
  | .badTargets cause => cause.message
  | .file cause => cause.message
  | .assembly path cause => path ++ ": " ++ cause.message
  | .annotate cause => cause.message
  | .run cause => cause.message
  | .counterexamples count => Text.decimal count ++ " counterexamples"
  | .register => "no such register"

/-- The line that tells the user of an error. -/
def Error.line (e : Error) : String := programName ++ ": " ++ e.message

/-! ### Programs and settings -/

/-- A program with its settings. -/
structure Loaded where
  /-- The settings. -/
  config : Config
  /-- The log level. -/
  level : LogLevel
  /-- The annotated program. -/
  program : Program
deriving Inhabited

/-- How files are read. -/
abbrev Files : Type := String → Except FileError String

/-- The settings of a source. -/
def Source.readConfig (s : Source) (files : Files) : Except Error Config :=
  if s.config.isEmpty then .ok {}
  else
    match files s.config with
    | .error cause => .error (.configFile cause)
    | .ok text => (Config.parse text).mapError (.config s.config)

/-- The annotated program of a source with its settings. -/
def Source.load (s : Source) (files : Files) : Except Error Loaded := do
  let c ← s.readConfig files
  let c := if s.logLevel.isEmpty then c else { c with logLevel := s.logLevel }
  let level ← c.level.mapError .setting
  let added ← (s.annotations.mapM Annotation.parse).mapError .badTargets
  let config := { c with annotations := c.annotations ++ added }
  let text ← (files s.file).mapError .file
  let p ← (Assembly.assemble text).mapError (.assembly s.file)
  let program ← (p.annotateAll config.annotations).mapError .annotate
  return { config, level, program }

/-- The settings of a configuration that an analysis overrides. -/
def AnalysisOptions.override (o : AnalysisOptions) (c : Config) : Config :=
  { c with
    maxStates := o.maxStates.getD c.maxStates
    memoryLimit := o.memoryLimit.getD c.memoryLimit
    vectorSize := o.vectorSize.getD c.vectorSize
    traceSummary := o.traceSummary.getD c.traceSummary
    showPath := c.showPath && !o.noPath }

/-! ### Purposes of an analysis -/

/-- What an analysis is made for. -/
inductive Purpose where
  /-- A report on a file, and files for the report, the graph and an unfinished analysis. -/
  | report (file : String) (view : Report.View) (output dump snapshot : String)
  /-- The graph, in a file unless its name is empty. -/
  | graph (output : String)
  /-- One line that identifies the graph. -/
  | digest
deriving DecidableEq, Inhabited

/-- The analysis came to no bound. -/
def isUnfinished (r : Report) : Bool := r.outcome == .exhausted || r.outcome == .stopped

/-- The graph goes to a file, and its digest is told. -/
def writeGraph (path : String) (g : Graph) : List Action :=
  [.write path g.dump.toUTF8, .print ("Graph written to " ++ path ++ " (digest " ++ g.digest ++ ")\n")]

/-- What is done with the outcome of an analysis. -/
def Purpose.actions (p : Purpose) (g : Graph) (r : Report) : List Action :=
  match p with
  | .report file view output dump snapshot =>
      let r := { r with program := file }
      [.print (r.render view)] ++
        (if output.isEmpty then []
        else [.write output r.toText.toUTF8, .print ("Report written to " ++ output ++ "\n")]) ++
        (if dump.isEmpty then [] else writeGraph dump g) ++
        (if snapshot.isEmpty || !isUnfinished r then []
        else
          [.write snapshot (Snapshot.encode r),
            .print ("Partial results saved to " ++ snapshot ++ "\n")])
  | .graph output => if output.isEmpty then [.print g.dump] else [.write output g.dump.toUTF8]
  | .digest =>
      [.print (g.digest ++ "  " ++ Text.decimal g.size ++ " states  " ++ Text.decimal g.edges.size ++
        " edges  " ++ r.outcome.name ++ "\n")]

/-- An analysis that waits to be made. -/
structure Job where
  /-- The program. -/
  code : Code
  /-- The limits. -/
  limits : Limits
  /-- The log level. -/
  level : LogLevel
  /-- The nanoseconds between two lines of progress, if they are asked for. -/
  monitor : Option Int := none
  /-- What the analysis is made for. -/
  purpose : Purpose

namespace Job

/-- The lines of the log at a level, in order. -/
def logLines (level : LogLevel) (x : Exploration) : List String :=
  ((x.log.filter fun e : Event => level.allows e.level).filterMap Event.line?).reverse

/-- What follows an analysis; the times are those of building and of looking for the path. -/
def finish (j : Job) (outcome : Exploration × Except RunError Report) (build traverse : Int) :
    List Action × Option Error :=
  let (x, result) := outcome
  let log := Action.log (logLines j.level x)
  match result with
  | .error cause => ([log], some (.run cause))
  | .ok r =>
      let traverse := if isUnfinished r then 0 else traverse
      (log :: j.purpose.actions x.graph { r with buildTime := build, traverseTime := traverse }, none)

/-- Makes an analysis, without measuring times. -/
def run (j : Job) (around : Surroundings) : List Action × Option Error :=
  j.finish (StackDepth.analyze j.code j.limits around State.reset) 0 0

end Job

/-! ### Self-checks -/

/-- The number of samples of a quick self-check. -/
def quickSamples : Nat := 8

/-- The samples of a self-check. -/
def samples (quick : Bool) : List Tribyte :=
  if quick then SelfCheck.defaultSamples.take quickSamples else SelfCheck.defaultSamples

/-- What follows a self-check that took some time. -/
def finishSelfCheck (result : Except SelfCheck.NoRegister SelfCheck.Summary) (elapsed : String) :
    List Action × Option Error :=
  match result with
  | .error _ => ([], some .register)
  | .ok s =>
      let head := "Checked " ++ Text.grouped s.cases ++ " cases (" ++ Text.grouped s.concretizations ++
        " concrete inputs) in " ++ elapsed
      let found := s.counterexamples.map fun c => "  " ++ c.render
      match s.counterexamples.length with
      | 0 => ([.print (Text.unlines [head, "No counterexamples"])], none)
      | n => ([.print (Text.unlines (head :: found))], some (.counterexamples n))

/-! ### Tasks -/

/-- What an invocation asks for. -/
inductive Task where
  /-- An analysis. -/
  | job (j : Job)
  /-- A self-check over samples. -/
  | selfCheck (samples : List Tribyte)
  /-- A text. -/
  | text (s : String)

/-- How the program is used. -/
def usage : String := Text.unlines [
  "Static worst-case stack depth analysis for AVR programs",
  "",
  "  " ++ programName ++ " analyze FILE    compute the maximum stack depth of an assembly program",
  "  " ++ programName ++ " dump FILE       build the state graph and print it",
  "  " ++ programName ++ " disasm FILE     assemble a program and list it with addresses",
  "  " ++ programName ++ " selfcheck       check the abstract instruction semantics"]

/-- The files that a source names. -/
def Source.inputs (s : Source) : List String := [s.config, s.file]

/-- The files that an invocation reads. -/
def Invocation.inputs : Invocation → List String
  | .analyze source _ | .dump source _ _ | .disasm source => source.inputs
  | .selfcheck _ _ | .help => []

namespace Task

/-- The task of an invocation. -/
def ofInvocation (files : Files) : Invocation → Except Error Task
  | .analyze source options => do
      let l ← source.load files
      let c := options.override l.config
      let limits ← c.limits.mapError .setting
      return .job {
        code := l.program.code, limits, level := l.level
        monitor := if options.monitor then some c.monitorInterval else none
        purpose := .report source.file
          { showPath := c.showPath, summary := c.traceSummary, showStates := options.showStates }
          options.output options.dump options.snapshot }
  | .dump source output digest => do
      let l ← source.load files
      let limits ← l.config.limits.mapError .setting
      return .job {
        code := l.program.code, limits, level := l.level
        purpose := if digest then .digest else .graph output }
  | .disasm source => do
      let l ← source.load files
      return .text l.program.listing
  | .selfcheck logLevel quick => do
      let _ ← (LogLevel.parse logLevel).mapError .level
      return .selfCheck (samples quick)
  | .help => .ok (.text usage)

/-- The task of the arguments of the program. -/
def ofArguments (args : List String) (files : Files) : Except Error Task := do
  let invocation ← (Invocation.parse args).mapError .usage
  ofInvocation files invocation

/-- What a task does, and the error it ends with; `elapsed` is what is printed for the time of a
self-check. -/
def run (t : Task) (around : Surroundings) (elapsed : String) : List Action × Option Error :=
  match t with
  | .job j => j.run around
  | .selfCheck samples => finishSelfCheck (SelfCheck.run [] samples) elapsed
  | .text s => ([.print s], none)

end Task

end Command

end StackDepth
