import Lockstep.Buffer.Dump
import Lockstep.Buffer.Transfer
import Lockstep.Engine
import Lockstep.Main
import Lockstep.Manifest.Report
import Lockstep.Notice
import Lockstep.Program.Builder
import Lockstep.Proofs.Alu.Exact
import Lockstep.Proofs.Alu.Held
import Lockstep.Proofs.Alu.HighestOrder
import Lockstep.Proofs.Alu.Integer
import Lockstep.Proofs.Alu.Kinds
import Lockstep.Proofs.Alu.Promotion
import Lockstep.Proofs.Alu.Range
import Lockstep.Proofs.Binary.Exact
import Lockstep.Proofs.Binary.Nearest
import Lockstep.Proofs.Binary.Number
import Lockstep.Proofs.Binary.Rounded
import Lockstep.Proofs.Buffer.RoundTrip
import Lockstep.Proofs.CommandLine.Status
import Lockstep.Proofs.DType.Spelling
import Lockstep.Proofs.Grid.Enumeration
import Lockstep.Proofs.Image.Access
import Lockstep.Proofs.Image.Address
import Lockstep.Proofs.Kernel.LastStore
import Lockstep.Proofs.Kernel.LoopSum
import Lockstep.Proofs.Kernel.VectorAdd
import Lockstep.Proofs.Launch.Accounting
import Lockstep.Proofs.Launch.Frame
import Lockstep.Proofs.Launch.Order
import Lockstep.Proofs.Launch.StoreOnly
import Lockstep.Proofs.Launch.Trace
import Lockstep.Proofs.Loop.Body
import Lockstep.Proofs.Loop.Counter
import Lockstep.Proofs.Loop.Fold
import Lockstep.Proofs.Loop.Liveness
import Lockstep.Proofs.Loop.Moves
import Lockstep.Proofs.Loop.Overrun
import Lockstep.Proofs.Loop.Reduction
import Lockstep.Proofs.Loop.Rounds
import Lockstep.Proofs.Loop.Shape
import Lockstep.Proofs.Loop.Termination
import Lockstep.Proofs.Loop.Visit
import Lockstep.Proofs.Manifest.Execution
import Lockstep.Proofs.Manifest.Replay
import Lockstep.Proofs.Manifest.Report
import Lockstep.Proofs.Manifest.Tally
import Lockstep.Proofs.Memory.Element
import Lockstep.Proofs.Memory.Extends
import Lockstep.Proofs.Memory.Integers
import Lockstep.Proofs.Memory.Patch
import Lockstep.Proofs.Memory.Replay
import Lockstep.Proofs.Memory.Stores
import Lockstep.Proofs.Outcome
import Lockstep.Proofs.Program.Hints
import Lockstep.Proofs.Program.WellFormed
import Lockstep.Proofs.Run.Coordinates
import Lockstep.Proofs.Run.Ends
import Lockstep.Proofs.Run.Entries
import Lockstep.Proofs.Run.Fits
import Lockstep.Proofs.Run.Handles
import Lockstep.Proofs.Run.Indexing
import Lockstep.Proofs.Run.Lanes
import Lockstep.Proofs.Run.Mirror
import Lockstep.Proofs.Run.OneLane
import Lockstep.Proofs.Run.Presence
import Lockstep.Proofs.Run.Reach
import Lockstep.Proofs.Run.Typed
import Lockstep.Proofs.Run.Values
import Lockstep.Proofs.Run.Within
import Lockstep.Proofs.Step.Blame
import Lockstep.Proofs.Step.Cases
import Lockstep.Proofs.Step.Cells
import Lockstep.Proofs.Step.Failure
import Lockstep.Proofs.Step.Frame
import Lockstep.Proofs.Step.Integers
import Lockstep.Proofs.Step.Produce
import Lockstep.Proofs.Step.Reads
import Lockstep.Proofs.Step.Replay
import Lockstep.Proofs.Step.Scatter
import Lockstep.Proofs.Step.Stretch
import Lockstep.Proofs.Step.Strict
import Lockstep.Proofs.Suite.Order
import Lockstep.Proofs.TensorCore.Duplication
import Lockstep.Proofs.TensorCore.Product
import Lockstep.Proofs.Text.Parts
import Lockstep.Proofs.Value.Conversion
import Lockstep.Proofs.Value.Equality
import Lockstep.Proofs.Value.Family
import Lockstep.Proofs.Value.Tagged
import Lockstep.Proofs.Value.WellFormed
import Lockstep.Settings.Load
import Lockstep.Settings.Sample
import Lockstep.Snapshot
import Lockstep.Toml.Document
