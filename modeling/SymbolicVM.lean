import SymbolicVM.CommandLine.Arguments
import SymbolicVM.CommandLine.Execute
import SymbolicVM.CommandLine.Help
import SymbolicVM.Config.Basic
import SymbolicVM.Config.JsonNode
import SymbolicVM.Config.Node
import SymbolicVM.Config.Reader
import SymbolicVM.Config.Toml.Reader
import SymbolicVM.Config.Toml.Scalar
import SymbolicVM.Config.Toml.Table
import SymbolicVM.Config.Yaml.Reader
import SymbolicVM.Config.Yaml.Scalar
import SymbolicVM.Config.Yaml.Scanner
import SymbolicVM.Config.Yaml.Token
import SymbolicVM.Decimal.Layout
import SymbolicVM.Decimal.Reader
import SymbolicVM.Decimal.Shortest
import SymbolicVM.Dict
import SymbolicVM.Engine.Builtin
import SymbolicVM.Engine.Decide
import SymbolicVM.Engine.Operands
import SymbolicVM.Engine.Refusal
import SymbolicVM.FlowGraph.Basic
import SymbolicVM.FlowGraph.Diagram
import SymbolicVM.Instruction.Basic
import SymbolicVM.Instruction.Document
import SymbolicVM.Instruction.Opcode
import SymbolicVM.Json.Basic
import SymbolicVM.Json.Number
import SymbolicVM.Json.Printer
import SymbolicVM.Json.Reader
import SymbolicVM.Json.Record
import SymbolicVM.Json.Token
import SymbolicVM.Listing
import SymbolicVM.Log.Filter
import SymbolicVM.Machine.Delta
import SymbolicVM.Machine.Document
import SymbolicVM.Machine.State
import SymbolicVM.Main
import SymbolicVM.Operator.Binary
import SymbolicVM.Operator.Number
import SymbolicVM.Operator.Unary
import SymbolicVM.Oracle.Basic
import SymbolicVM.Oracle.Command
import SymbolicVM.Oracle.Replay
import SymbolicVM.Oracle.Request
import SymbolicVM.Oracle.Response
import SymbolicVM.Oracle.Symbolic
import SymbolicVM.Program
import SymbolicVM.Program.Report
import SymbolicVM.Proofs.Dict
import SymbolicVM.Proofs.Engine.Capture
import SymbolicVM.Proofs.Engine.Confinement
import SymbolicVM.Proofs.Engine.Constants
import SymbolicVM.Proofs.Engine.Footprint
import SymbolicVM.Proofs.Engine.Forms
import SymbolicVM.Proofs.Engine.Lengths
import SymbolicVM.Proofs.Engine.Loads
import SymbolicVM.Proofs.Engine.Memoised
import SymbolicVM.Proofs.Engine.Operands
import SymbolicVM.Proofs.Engine.Overflow
import SymbolicVM.Proofs.Engine.Steering
import SymbolicVM.Proofs.Engine.Stores
import SymbolicVM.Proofs.Engine.Substitution
import SymbolicVM.Proofs.Engine.Supply
import SymbolicVM.Proofs.Engine.Words
import SymbolicVM.Proofs.Except
import SymbolicVM.Proofs.FlowGraph.Drawing
import SymbolicVM.Proofs.FlowGraph.Edges
import SymbolicVM.Proofs.FlowGraph.Labels
import SymbolicVM.Proofs.FlowGraph.Names
import SymbolicVM.Proofs.FlowGraph.Partition
import SymbolicVM.Proofs.FlowGraph.Subgraph
import SymbolicVM.Proofs.FlowGraph.Targets
import SymbolicVM.Proofs.Json.Compact
import SymbolicVM.Proofs.Json.Record
import SymbolicVM.Proofs.Json.Scalars
import SymbolicVM.Proofs.Listing.Lines
import SymbolicVM.Proofs.Listing.RoundTrip
import SymbolicVM.Proofs.Listing.Words
import SymbolicVM.Proofs.Machine.Ancestors
import SymbolicVM.Proofs.Machine.Apply
import SymbolicVM.Proofs.Machine.Chain
import SymbolicVM.Proofs.Machine.Document
import SymbolicVM.Proofs.Machine.Fields
import SymbolicVM.Proofs.Machine.Identifier
import SymbolicVM.Proofs.Machine.Numbering
import SymbolicVM.Proofs.Machine.Ownership
import SymbolicVM.Proofs.Machine.Reading
import SymbolicVM.Proofs.Machine.Stack
import SymbolicVM.Proofs.Machine.Substitution
import SymbolicVM.Proofs.Machine.Values
import SymbolicVM.Proofs.Machine.Visibility
import SymbolicVM.Proofs.Operator.Comparison
import SymbolicVM.Proofs.Operator.Evaluation
import SymbolicVM.Proofs.Operator.Extremes
import SymbolicVM.Proofs.Operator.Integers
import SymbolicVM.Proofs.Operator.Range
import SymbolicVM.Proofs.Operator.Unknowns
import SymbolicVM.Proofs.Operator.Words
import SymbolicVM.Proofs.Oracle.Answers
import SymbolicVM.Proofs.Oracle.Exhaustion
import SymbolicVM.Proofs.Oracle.Fences
import SymbolicVM.Proofs.Oracle.FreshNames
import SymbolicVM.Proofs.Oracle.Naming
import SymbolicVM.Proofs.Oracle.Response
import SymbolicVM.Proofs.Oracle.Shape
import SymbolicVM.Proofs.Oracle.Supply
import SymbolicVM.Proofs.Oracle.Symbolic
import SymbolicVM.Proofs.Program.Document
import SymbolicVM.Proofs.Reference
import SymbolicVM.Proofs.Registry
import SymbolicVM.Proofs.Registry.Regions
import SymbolicVM.Proofs.Registry.Scan
import SymbolicVM.Proofs.Run.Branching
import SymbolicVM.Proofs.Run.Budget
import SymbolicVM.Proofs.Run.CallBracket
import SymbolicVM.Proofs.Run.CallEntry
import SymbolicVM.Proofs.Run.Consultation
import SymbolicVM.Proofs.Run.ControlFlow
import SymbolicVM.Proofs.Run.Cycles
import SymbolicVM.Proofs.Run.Draws
import SymbolicVM.Proofs.Run.Failures
import SymbolicVM.Proofs.Run.Freshness
import SymbolicVM.Proofs.Run.History
import SymbolicVM.Proofs.Run.Numbering
import SymbolicVM.Proofs.Run.Ownership
import SymbolicVM.Proofs.Run.Replay
import SymbolicVM.Proofs.Run.ReturnStamps
import SymbolicVM.Proofs.Run.Stack
import SymbolicVM.Proofs.Run.Survival
import SymbolicVM.Proofs.Text.Split
import SymbolicVM.Proofs.Value.Document
import SymbolicVM.Proofs.Value.Parts
import SymbolicVM.Proofs.Value.Unknowns
import SymbolicVM.Reference
import SymbolicVM.Registry
import SymbolicVM.Run.Basic
import SymbolicVM.Run.Report
import SymbolicVM.Shell.Directory
import SymbolicVM.Shell.Evaluate
import SymbolicVM.Shell.Machine
import SymbolicVM.Shell.Program
import SymbolicVM.Shell.Script
import SymbolicVM.Shell.Sum
import SymbolicVM.Shell.Tool
import SymbolicVM.Shell.Transport
import SymbolicVM.Shell.Word
import SymbolicVM.Text.CharClass
import SymbolicVM.Text.Numeral
import SymbolicVM.Text.Quoted
import SymbolicVM.Text.Split
import SymbolicVM.Text.WordChar
import SymbolicVM.Value.Basic
import SymbolicVM.Value.Document
import SymbolicVM.Value.Literal
import SymbolicVM.Value.Printer
