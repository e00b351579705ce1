import StackDepth.Analysis.Build
import StackDepth.Analysis.Code
import StackDepth.Analysis.Event
import StackDepth.Analysis.Exploration
import StackDepth.Analysis.Propagation
import StackDepth.Analysis.Report
import StackDepth.Assembly.Assemble
import StackDepth.Assembly.Encode
import StackDepth.Assembly.Line
import StackDepth.Assembly.Listing
import StackDepth.Assembly.Operand
import StackDepth.Binary64
import StackDepth.Command.Flag
import StackDepth.Command.Invocation
import StackDepth.Command.Place
import StackDepth.Command.Task
import StackDepth.Command.Workspace
import StackDepth.Config.Basic
import StackDepth.Config.Level
import StackDepth.Config.Parser
import StackDepth.Digest
import StackDepth.Duration
import StackDepth.Graph.Basic
import StackDepth.Graph.Cache
import StackDepth.Graph.Components
import StackDepth.Graph.Dump
import StackDepth.Graph.Edge
import StackDepth.Graph.MaxPath
import StackDepth.Graph.Neighbours
import StackDepth.Graph.ReturnSet
import StackDepth.Instruction.Basic
import StackDepth.Instruction.Catalog
import StackDepth.Instruction.Disassembly
import StackDepth.Instruction.Opcode
import StackDepth.Json.Basic
import StackDepth.Json.Parser
import StackDepth.Json.Printer
import StackDepth.Machine
import StackDepth.Main
import StackDepth.Numeral
import StackDepth.Numeral.Literal
import StackDepth.Program.Annotation
import StackDepth.Program.Basic
import StackDepth.Program.Flash
import StackDepth.Proofs.Analysis.Bookkeeping
import StackDepth.Proofs.Analysis.Build
import StackDepth.Proofs.Analysis.CallString
import StackDepth.Proofs.Analysis.Completeness
import StackDepth.Proofs.Analysis.Exactness
import StackDepth.Proofs.Analysis.Exploration
import StackDepth.Proofs.Analysis.Failure
import StackDepth.Proofs.Analysis.Fixpoint
import StackDepth.Proofs.Analysis.Monotone
import StackDepth.Proofs.Analysis.Propagation
import StackDepth.Proofs.Analysis.Statistics
import StackDepth.Proofs.Analysis.Summary
import StackDepth.Proofs.Analysis.Termination
import StackDepth.Proofs.Analysis.Turn
import StackDepth.Proofs.Assembly.Ranges
import StackDepth.Proofs.Graph.Cache
import StackDepth.Proofs.Graph.Components
import StackDepth.Proofs.Graph.Counters
import StackDepth.Proofs.Graph.MaxPath
import StackDepth.Proofs.Graph.Potential
import StackDepth.Proofs.Graph.ReturnSet
import StackDepth.Proofs.Graph.Route
import StackDepth.Proofs.Graph.Search
import StackDepth.Proofs.Graph.Walk
import StackDepth.Proofs.Graph.WellFormed
import StackDepth.Proofs.Graph.Witness
import StackDepth.Proofs.Instruction.Encodable
import StackDepth.Proofs.Processor.Depth
import StackDepth.Proofs.Processor.Simulation
import StackDepth.Proofs.Processor.Step
import StackDepth.Proofs.Report.Distribution
import StackDepth.Proofs.Transfer.Alu
import StackDepth.Proofs.Transfer.Branching
import StackDepth.Proofs.Transfer.Monotone
import StackDepth.Proofs.Transfer.Soundness
import StackDepth.Proofs.Tribyte.Cover
import StackDepth.Proofs.Tribyte.Order
import StackDepth.Proofs.Tribyte.Precision
import StackDepth.Report.Basic
import StackDepth.Report.Distribution
import StackDepth.Report.Json
import StackDepth.Report.Snapshot
import StackDepth.Report.Text
import StackDepth.SelfCheck.Case
import StackDepth.SelfCheck.Check
import StackDepth.Size
import StackDepth.State.Basic
import StackDepth.State.Interrupt
import StackDepth.Text.Blank
import StackDepth.Text.Digit
import StackDepth.Text.Grouped
import StackDepth.Text.Hex
import StackDepth.Text.LetterCase
import StackDepth.Text.Pad
import StackDepth.Text.Printable
import StackDepth.Text.Quoted
import StackDepth.Text.Split
import StackDepth.Transfer.Alu
import StackDepth.Transfer.Effect
import StackDepth.Transfer.Step
import StackDepth.Tribyte.Basic
import StackDepth.Tribyte.Concretization
import StackDepth.Tribyte.Text
import StackDepth.Yaml.Node
import StackDepth.Yaml.Parser
import StackDepth.Yaml.Scalar
import StackDepth.Yaml.Tag
import StackDepth.Yaml.Timestamp
import StackDepth.Yaml.Token
import StackDepth.Yaml.Value
import StackDepth.Yaml.Window
import StackDepth.Zstd
import StackDepth.Proofs.Report.Witness
import StackDepth.Proofs.Analysis.Truncation
import StackDepth.Proofs.Analysis.Interning
import StackDepth.Proofs.Text.Numeral
import StackDepth.Proofs.Assembly.Disassembly
import StackDepth.Proofs.Program.Flash
import StackDepth.Proofs.Assembly.Selection
import StackDepth.Proofs.Assembly.Layout
import StackDepth.Proofs.Assembly.RoundTrip
import StackDepth.Proofs.Program.Placement
import StackDepth.Proofs.Transfer.Alias
import StackDepth.Proofs.Tribyte.Concretization
import StackDepth.Proofs.SelfCheck.Operands
import StackDepth.Proofs.SelfCheck.Check
import StackDepth.Proofs.Graph.Tarjan
import StackDepth.Proofs.Graph.Regions
import StackDepth.Proofs.Program.Contiguous
import StackDepth.Proofs.Assembly.Target
import StackDepth.Proofs.Text.Spelling
import StackDepth.Proofs.State.Render
import StackDepth.Proofs.Graph.Dump
import StackDepth.Proofs.Graph.ShortestPath
import StackDepth.Proofs.Graph.History
import StackDepth.Proofs.Report.Folding
