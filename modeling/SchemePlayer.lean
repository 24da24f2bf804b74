import SchemePlayer.Assembly.Line
import SchemePlayer.Assembly.Program
import SchemePlayer.Assembly.Statement
import SchemePlayer.Bytecode.Builder
import SchemePlayer.Bytecode.Code
import SchemePlayer.Bytecode.Instruction
import SchemePlayer.Bytecode.Listing
import SchemePlayer.Bytecode.Opcode
import SchemePlayer.Bytecode.Word
import SchemePlayer.Cbor.Basic
import SchemePlayer.Cbor.Field
import SchemePlayer.Cbor.Parser
import SchemePlayer.Class.Basic
import SchemePlayer.Class.Table
import SchemePlayer.Cli.Basic
import SchemePlayer.Cli.Flag
import SchemePlayer.Executor.Pace
import SchemePlayer.Executor.Runner
import SchemePlayer.Executor.Trial
import SchemePlayer.Files.Basic
import SchemePlayer.Files.Error
import SchemePlayer.Files.Path
import SchemePlayer.Files.Stream
import SchemePlayer.Host.Call
import SchemePlayer.Host.Headless
import SchemePlayer.Host.Registry
import SchemePlayer.Host.Scripted
import SchemePlayer.Json.Basic
import SchemePlayer.Json.Field
import SchemePlayer.Json.Parser
import SchemePlayer.Keyboard
import SchemePlayer.Library.Basic
import SchemePlayer.Library.Compiled
import SchemePlayer.Library.Source
import SchemePlayer.Machine.Basic
import SchemePlayer.Machine.Effect
import SchemePlayer.Machine.Fault
import SchemePlayer.Main
import SchemePlayer.Manifest
import SchemePlayer.Memory.Basic
import SchemePlayer.Memory.Request
import SchemePlayer.Number.Binary64
import SchemePlayer.Number.Format
import SchemePlayer.Number.Narrow
import SchemePlayer.Number.Power
import SchemePlayer.Number.Reading
import SchemePlayer.Number.Shortest
import SchemePlayer.Project.Basic
import SchemePlayer.Project.Playback
import SchemePlayer.Proofs.Machine.Effect
import SchemePlayer.Proofs.Machine.Request
import SchemePlayer.Proofs.Memory.Size
import SchemePlayer.Proofs.Tree.Bounds
import SchemePlayer.Rehearsal
import SchemePlayer.Service.Basic
import SchemePlayer.Service.Error
import SchemePlayer.Service.Http
import SchemePlayer.Service.Request
import SchemePlayer.Service.Session
import SchemePlayer.Store.Basic
import SchemePlayer.Store.Keeper
import SchemePlayer.Store.Snapshot
import SchemePlayer.Text.Base64
import SchemePlayer.Text.Basic
import SchemePlayer.Text.Case
import SchemePlayer.Text.CaseTable
import SchemePlayer.Text.Printable
import SchemePlayer.Text.Quoted
import SchemePlayer.Toml.Basic
import SchemePlayer.Toml.Literal
import SchemePlayer.Toml.Parser
import SchemePlayer.Tree.Basic
import SchemePlayer.Tree.Build
import SchemePlayer.Tree.VarSet
import SchemePlayer.Value.Basic
import SchemePlayer.Value.VarType
import SchemePlayer.Worker
import SchemePlayer.Yaml.Basic
import SchemePlayer.Yaml.Field
import SchemePlayer.Yaml.Parser
import SchemePlayer.Yaml.Scalar
import SchemePlayer.Yaml.Scanner
import SchemePlayer.Proofs.Machine.Trace
import SchemePlayer.Proofs.Machine.Lockstep
import SchemePlayer.Proofs.Project.Tick
import SchemePlayer.Proofs.Project.Run
import SchemePlayer.Proofs.Project.Outstanding
import SchemePlayer.Proofs.Project.Series
import SchemePlayer.Proofs.Project.Replay
import SchemePlayer.Proofs.Project.Deferral
import SchemePlayer.Proofs.Project.Suspension
import SchemePlayer.Proofs.Tree.Numbering
import SchemePlayer.Proofs.Tree.Slots
import SchemePlayer.Proofs.Tree.Shape
import SchemePlayer.Proofs.Project.Outcome
import SchemePlayer.Proofs.Memory.Committed
import SchemePlayer.Proofs.Project.Executors
import SchemePlayer.Proofs.Machine.Fault
import SchemePlayer.Proofs.Project.Commit
import SchemePlayer.Proofs.Machine.Safety
import SchemePlayer.Proofs.Project.Safety
import SchemePlayer.Proofs.Number.Bits
import SchemePlayer.Proofs.Number.Nearest
import SchemePlayer.Proofs.Number.Narrow
import SchemePlayer.Proofs.Number.Shortest
import SchemePlayer.Proofs.Number.Digits
import SchemePlayer.Proofs.Number.RoundTrip
import SchemePlayer.Proofs.Bytecode.Decode
import SchemePlayer.Proofs.Bytecode.Builder
import SchemePlayer.Proofs.Assembly.Image
import SchemePlayer.Proofs.Assembly.Program
import SchemePlayer.Proofs.Assembly.Meaning
import SchemePlayer.Proofs.Assembly.Lines
import SchemePlayer.Proofs.Assembly.Refinement
import SchemePlayer.Proofs.Assembly.Range
import SchemePlayer.Proofs.Cbor.RoundTrip
import SchemePlayer.Proofs.Library.Compiled
import SchemePlayer.Proofs.Library.Table
import SchemePlayer.Proofs.Library.Loading
import SchemePlayer.Proofs.Library.Order
import SchemePlayer.Proofs.Memory.Restore
import SchemePlayer.Proofs.Tree.Postorder
import SchemePlayer.Proofs.Tree.Propagation
import SchemePlayer.Proofs.Tree.Restore
import SchemePlayer.Proofs.Project.Restore
import SchemePlayer.Proofs.Machine.Stride
import SchemePlayer.Proofs.Machine.Boundary
import SchemePlayer.Proofs.Machine.Termination
import SchemePlayer.Proofs.Project.Order
import SchemePlayer.Proofs.Project.Termination
import SchemePlayer.Proofs.Project.Notification
import SchemePlayer.Proofs.Host.Registry
import SchemePlayer.Proofs.Host.Sharing
import SchemePlayer.Proofs.Json.RoundTrip
import SchemePlayer.Proofs.Machine.Isolation
import SchemePlayer.Proofs.Machine.Order
import SchemePlayer.Proofs.Store.Map
import SchemePlayer.Proofs.Text.Sort
import SchemePlayer.Proofs.Text.Case
import SchemePlayer.Proofs.Tree.Report
import SchemePlayer.Proofs.Tree.Strict
import SchemePlayer.Proofs.Tree.Lookup
import SchemePlayer.Proofs.Worker.Exchange
import SchemePlayer.Proofs.Worker.Serialization
import SchemePlayer.Proofs.Project.Lasting
import SchemePlayer.Proofs.Service.Session
import SchemePlayer.Proofs.Service.Desk
import SchemePlayer.Proofs.Service.Invariant
import SchemePlayer.Proofs.Service.Moves
import SchemePlayer.Proofs.Service.Lifetime
import SchemePlayer.Proofs.Service.Alone
import SchemePlayer.Proofs.Machine.Nesting
import SchemePlayer.Proofs.Machine.Unwinding
import SchemePlayer.Proofs.Project.Guard
import SchemePlayer.Proofs.Project.Blame
import SchemePlayer.Proofs.Project.Answers
import SchemePlayer.Proofs.Tree.Containment
import SchemePlayer.Proofs.Tree.Defaults
import SchemePlayer.Proofs.Tree.Seeding
import SchemePlayer.Proofs.Tree.Initial
import SchemePlayer.Proofs.Text.Words
import SchemePlayer.Proofs.Text.Quoted
import SchemePlayer.Proofs.Assembly.Layout
import SchemePlayer.Proofs.Assembly.Blame
import SchemePlayer.Proofs.Assembly.Relayout
import SchemePlayer.Proofs.Assembly.Literal
import SchemePlayer.Proofs.Host.Holding
import SchemePlayer.Proofs.Executor.Interval
import SchemePlayer.Proofs.Executor.Usage
import SchemePlayer.Proofs.Executor.Interference
