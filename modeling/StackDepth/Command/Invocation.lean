import StackDepth.Command.Flag
import StackDepth.Text.Pad

/-!
# Invocations

The first argument that is neither a flag nor the value of one names a command; what else there is are its
flags and operands. `Invocation.parse` reads the arguments of the program. Flags in front of the command are
not known yet when the command is looked for, so that every flag there without an equals sign is taken to
have a value.
-/

namespace StackDepth

namespace Command

/-- The name under which the program speaks of itself. -/
def programName : String := "avrstack"

/-- Where a program and its settings come from. -/
structure Source where
  /-- The file of the program. -/
  file : String := ""
  /-- The file of the configuration; none if it is empty. -/
  config : String := ""
  /-- The log level; the one of the configuration if it is empty. -/
  logLevel : String := ""
  /-- Annotations of indirect transfers. -/
  annotations : List String := []
deriving DecidableEq, Inhabited

/-- What is asked of an analysis beyond its configuration. -/
structure AnalysisOptions where
  /-- The number of states allowed. -/
  maxStates : Option Int := none
  /-- The memory allowed. -/
  memoryLimit : Option String := none
  /-- The distance between interrupt vectors. -/
  vectorSize : Option Int := none
  /-- Fold steps that only fall through. -/
  traceSummary : Option Bool := none
  /-- Do not show the path. -/
  noPath : Bool := false
  /-- Show the state before each step. -/
  showStates : Bool := false
  /-- Show the progress. -/
  monitor : Bool := false
  /-- The file for the report; none if it is empty. -/
  output : String := ""
  /-- The file for the graph; none if it is empty. -/
  dump : String := ""
  /-- The file for the report of an unfinished analysis; none if it is empty. -/
  snapshot : String := ""
deriving DecidableEq, Inhabited

/-- What the program is asked to do. -/
inductive Invocation where
  /-- Bound the stack depth of a program. -/
  | analyze (source : Source) (options : AnalysisOptions)
  /-- Show the state graph of a program, in a file unless its name is empty, or only its digest. -/
  | dump (source : Source) (output : String) (digest : Bool)
  /-- List a program. -/
  | disasm (source : Source)
  /-- Check the transfer functions against the machine. -/
  | selfcheck (logLevel : String) (quick : Bool)
  /-- Explain the commands. -/
  | help
deriving DecidableEq, Inhabited

/-- Why arguments cannot be understood. -/
inductive UsageError where
  /-- A flag is wrong. -/
  | flag (cause : FlagError)
  /-- There is no such command. -/
  | unknownCommand (name path : String)
  /-- The command takes one operand. -/
  | operandCount (received : Nat)
deriving DecidableEq, Inhabited

/-- The text of an error. -/
def UsageError.message : UsageError → String
  | .flag cause => cause.message
  | .unknownCommand name path => "unknown command " ++ Text.quoted name ++ " for " ++ Text.quoted path
  | .operandCount received => "accepts 1 arg(s), received " ++ Text.decimal received

/-! ### Flags of the commands -/

/-- The flag that every command has. -/
def helpFlag : Flag := ⟨"help", .switch, some 'h'⟩

/-- The flags of all commands that read a program. -/
def sourceFlags : List Flag :=
  [⟨"config", .text, some 'c'⟩, ⟨"log-level", .text, none⟩, ⟨"indirect", .text, none⟩]

/-- The flags of an analysis. -/
def analyzeFlags : List Flag := sourceFlags ++
  [⟨"max-states", .number, none⟩, ⟨"memory-limit", .text, none⟩, ⟨"vector-size", .number, none⟩,
    ⟨"output", .text, some 'o'⟩, ⟨"dump", .text, none⟩, ⟨"snapshot", .text, none⟩,
    ⟨"monitor", .switch, some 'm'⟩, ⟨"no-path", .switch, none⟩, ⟨"trace-summary", .switch, none⟩,
    ⟨"states", .switch, none⟩, helpFlag]

/-- The flags of a dump. -/
def dumpFlags : List Flag := sourceFlags ++
  [⟨"output", .text, some 'o'⟩, ⟨"digest", .switch, none⟩, helpFlag]

/-- The flags of a listing. -/
def disasmFlags : List Flag := sourceFlags ++ [helpFlag]

/-- The flags of a self-check. -/
def selfcheckFlags : List Flag :=
  [⟨"workers", .number, some 'w'⟩, ⟨"quick", .switch, none⟩, ⟨"log-level", .text, none⟩, helpFlag]

/-! ### What the flags say -/

/-- What a flag was set to last. -/
def lastValue? (settings : List Setting) (name : String) : Option FlagValue :=
  (settings.reverse.find? (·.1 == name)).map (·.2)

/-- The switch of a name, if it was set. -/
def switch? (settings : List Setting) (name : String) : Option Bool :=
  match lastValue? settings name with
  | some (.switch b) => some b
  | _ => none

/-- The switch of a name is set and true. -/
def isOn (settings : List Setting) (name : String) : Bool := (switch? settings name).getD false

/-- The number of a name, if it was set. -/
def number? (settings : List Setting) (name : String) : Option Int :=
  match lastValue? settings name with
  | some (.number n) => some n
  | _ => none

/-- The text of a name, if it was set. -/
def text? (settings : List Setting) (name : String) : Option String :=
  match lastValue? settings name with
  | some (.text s) => some s
  | _ => none

/-- All texts that a name was set to, in order. -/
def texts (settings : List Setting) (name : String) : List String :=
  settings.filterMap fun (n, v) =>
    match v with
    | .text s => if n == name then some s else none
    | _ => none

/-- Where the program comes from. -/
def Source.ofSettings (file : String) (settings : List Setting) : Source :=
  { file, config := (text? settings "config").getD "", logLevel := (text? settings "log-level").getD "",
    annotations := texts settings "indirect" }

/-- What is asked of an analysis. -/
def AnalysisOptions.ofSettings (settings : List Setting) : AnalysisOptions :=
  { maxStates := number? settings "max-states", memoryLimit := text? settings "memory-limit",
    vectorSize := number? settings "vector-size", traceSummary := switch? settings "trace-summary",
    noPath := isOn settings "no-path", showStates := isOn settings "states",
    monitor := isOn settings "monitor", output := (text? settings "output").getD "",
    dump := (text? settings "dump").getD "", snapshot := (text? settings "snapshot").getD "" }

/-! ### Commands -/

namespace Invocation

/-- Reads the flags of a command; asking for help comes before everything else. -/
def withFlags (flags : List Flag) (args : List String)
    (f : List Setting → List String → Except UsageError Invocation) : Except UsageError Invocation :=
  match Flag.parse flags args with
  | .error cause => .error (.flag cause)
  | .ok (settings, operands) => if isOn settings "help" then .ok .help else f settings operands

/-- Reads the flags and the only operand of a command. -/
def withFile (flags : List Flag) (args : List String) (f : List Setting → Source → Invocation) :
    Except UsageError Invocation :=
  withFlags flags args fun settings operands =>
    match operands with
    | [file] => .ok (f settings (.ofSettings file settings))
    | _ => .error (.operandCount operands.length)

/-- Reads the arguments of a command. -/
def ofCommand (name : String) (args : List String) : Except UsageError Invocation :=
  match name with
  | "analyze" => withFile analyzeFlags args fun settings source => .analyze source (.ofSettings settings)
  | "dump" =>
      withFile dumpFlags args fun settings source =>
        .dump source ((text? settings "output").getD "") (isOn settings "digest")
  | "disasm" => withFile disasmFlags args fun _ source => .disasm source
  | "selfcheck" =>
      withFlags selfcheckFlags args fun settings operands =>
        match operands with
        | [] => .ok (.selfcheck ((text? settings "log-level").getD "info") (isOn settings "quick"))
        | extra :: _ => .error (.unknownCommand extra (programName ++ " selfcheck"))
  | "help" => .ok .help
  | _ => .error (.unknownCommand name programName)

/-- A flag that is taken to have its value in the next argument, before the command is known. -/
def takesNext (argument : String) : Bool :=
  !argument.contains '=' &&
    ("--".toList.isPrefixOf argument.toList ||
      (argument.toList.head? == some '-' && argument.utf8ByteSize == 2))

/-- The name of the command and the other arguments. A flag in front of the last argument hides it. -/
def splitCommand : List String → Option (String × List String)
  | [] => none
  | argument :: rest =>
      if argument == "--" then none
      else if takesNext argument then
        match rest with
        | value :: more :: rest =>
            (splitCommand (more :: rest)).map fun (name, args) => (name, argument :: value :: args)
        | _ => none
      else if argument.isEmpty || argument.toList.head? == some '-' then
        (splitCommand rest).map fun (name, args) => (name, argument :: args)
      else some (argument, rest)

/-- Reads the arguments of the program. -/
def parse (args : List String) : Except UsageError Invocation :=
  match splitCommand args with
  | some (name, args) => ofCommand name args
  | none => withFlags [helpFlag] args fun _ _ => .ok .help

end Invocation

end Command

end StackDepth
