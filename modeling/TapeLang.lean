import TapeLang.Assembly.Arch
import TapeLang.Assembly.Listing
import TapeLang.Bracket
import TapeLang.Build.Compile
import TapeLang.Build.Format
import TapeLang.Build.Tool
import TapeLang.Build.Toolchain
import TapeLang.CommandLine.Flag
import TapeLang.CommandLine.Run
import TapeLang.CommandLine.Verb
import TapeLang.Config.Basic
import TapeLang.Config.Decode
import TapeLang.Config.File
import TapeLang.Cursor
import TapeLang.Json.Read
import TapeLang.Json.Token
import TapeLang.Json.Tree
import TapeLang.Json.Value
import TapeLang.Kind
import TapeLang.Line
import TapeLang.Location
import TapeLang.Machine.Load
import TapeLang.Machine.Memory
import TapeLang.Machine.Program
import TapeLang.Machine.Register
import TapeLang.Machine.State
import TapeLang.Machine.Step
import TapeLang.Main
import TapeLang.Node
import TapeLang.Output.Buffer
import TapeLang.Output.Emission
import TapeLang.Output.Writer
import TapeLang.Parse
import TapeLang.Playground
import TapeLang.Proofs.Json.Tokens
import TapeLang.Proofs.Json.Trees
import TapeLang.Proofs.Json.Values
import TapeLang.Proofs.Listing.Buffered
import TapeLang.Proofs.Listing.Code
import TapeLang.Proofs.Listing.Emitter
import TapeLang.Proofs.Listing.Instruction
import TapeLang.Proofs.Listing.Labels
import TapeLang.Proofs.Listing.Lines
import TapeLang.Proofs.Listing.Load
import TapeLang.Proofs.Listing.Origin
import TapeLang.Proofs.Listing.Recursion
import TapeLang.Proofs.Listing.Shape
import TapeLang.Proofs.Listing.Tree
import TapeLang.Proofs.Machine.Assignment
import TapeLang.Proofs.Machine.Budget
import TapeLang.Proofs.Machine.Cells
import TapeLang.Proofs.Machine.Change
import TapeLang.Proofs.Machine.Confinement
import TapeLang.Proofs.Machine.Control
import TapeLang.Proofs.Machine.Effect
import TapeLang.Proofs.Machine.Execution
import TapeLang.Proofs.Machine.Flags
import TapeLang.Proofs.Machine.Jumps
import TapeLang.Proofs.Machine.Operations
import TapeLang.Proofs.Machine.Overflow
import TapeLang.Proofs.Machine.Path
import TapeLang.Proofs.Machine.Robustness
import TapeLang.Proofs.Machine.Tape
import TapeLang.Proofs.Output.Buffering
import TapeLang.Proofs.Output.Delivery
import TapeLang.Proofs.Output.Truncation
import TapeLang.Proofs.Reference.Agreement
import TapeLang.Proofs.Reference.Semantics
import TapeLang.Proofs.Reference.Spelling
import TapeLang.Proofs.Reference.Tasks
import TapeLang.Proofs.Reference.Tracking
import TapeLang.Proofs.Report.Placement
import TapeLang.Proofs.Server.Order
import TapeLang.Proofs.Simulation.Compiled
import TapeLang.Proofs.Simulation.Faults
import TapeLang.Proofs.Simulation.Lockstep
import TapeLang.Proofs.Simulation.Preservation
import TapeLang.Proofs.Simulation.Rerun
import TapeLang.Proofs.Simulation.StackGuard
import TapeLang.Proofs.Simulation.Steps
import TapeLang.Proofs.Simulation.Verdict
import TapeLang.Proofs.Simulation.Wraparound
import TapeLang.Proofs.Source.Brackets
import TapeLang.Proofs.Source.Diagnosis
import TapeLang.Proofs.Source.History
import TapeLang.Proofs.Source.Layout
import TapeLang.Proofs.Source.Lines
import TapeLang.Proofs.Source.Offset
import TapeLang.Proofs.Source.Position
import TapeLang.Proofs.Source.Reading
import TapeLang.Proofs.Source.Relocation
import TapeLang.Proofs.Source.Rendering
import TapeLang.Proofs.Source.Reparse
import TapeLang.Proofs.Streams.Blindness
import TapeLang.Proofs.Streams.Calm
import TapeLang.Proofs.Streams.Discipline
import TapeLang.Proofs.Text.Numeral
import TapeLang.Proofs.Text.Utf8
import TapeLang.Proofs.Text.Word
import TapeLang.Proofs.Tree.Coalesce
import TapeLang.Proofs.Tree.Preorder
import TapeLang.Report.Diagnostics
import TapeLang.Report.Sarif
import TapeLang.Server.Pipeline
import TapeLang.Server.Request
import TapeLang.Shell.Command
import TapeLang.Shell.Process
import TapeLang.Shell.Script
import TapeLang.Shell.Token
import TapeLang.Shell.Utility
import TapeLang.Shell.Word
import TapeLang.Stack
import TapeLang.Text.Base64
import TapeLang.Text.Blank
import TapeLang.Text.Bytes
import TapeLang.Text.Encoding
import TapeLang.Text.Integer
import TapeLang.Text.Printable
import TapeLang.Text.Quoted
import TapeLang.Text.Utf8
import TapeLang.Workspace.Path
import TapeLang.Workspace.Tree
import TapeLang.Yaml.Node
import TapeLang.Yaml.Number
import TapeLang.Yaml.Place
import TapeLang.Yaml.Scalar
import TapeLang.Yaml.Tag
import TapeLang.Yaml.Text
import TapeLang.Yaml.Timestamp
import TapeLang.Yaml.Token
import TapeLang.Proofs.Source.History
import TapeLang.Proofs.Source.Relocation
import TapeLang.Proofs.Report.Placement
