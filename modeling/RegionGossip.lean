import RegionGossip.Document
import RegionGossip.Execution.Scripted
import RegionGossip.Execution.Timed
import RegionGossip.Main
import RegionGossip.Network.Execution
import RegionGossip.Network.Guest
import RegionGossip.Settings.Tuning
import RegionGossip.Value.Measure
import RegionGossip.Proofs.Deflate.Stored
import RegionGossip.Proofs.SortedMap.Lookup
import RegionGossip.Proofs.Value.NormalForm
import RegionGossip.Proofs.Wire.Compact
import RegionGossip.Proofs.Json.Numeral
import RegionGossip.Proofs.Json.Lexing
import RegionGossip.Proofs.Json.Documents
import RegionGossip.Proofs.Binary64.Numeral
import RegionGossip.Proofs.Wire.Object
import RegionGossip.Proofs.Wire.Message
import RegionGossip.Manager.Task
import RegionGossip.Proofs.Manager.Links
import RegionGossip.Proofs.Manager.Actions
import RegionGossip.Proofs.Manager.Steps
import RegionGossip.Proofs.Manager.Wiring
import RegionGossip.Proofs.Manager.History
import RegionGossip.Proofs.Manager.Sessions
import RegionGossip.Proofs.Manager.Runs
import RegionGossip.Proofs.Manager.Table
import RegionGossip.Proofs.Manager.Lifecycle
import RegionGossip.Manager.Pair
import RegionGossip.Proofs.Manager.Contest
import RegionGossip.Proofs.Manager.Agreement
import RegionGossip.Proofs.Manager.Uninterrupted
import RegionGossip.Execution.Mesh
import RegionGossip.Proofs.Kernel.Merit
import RegionGossip.Proofs.Execution.Cycle
import RegionGossip.Proofs.Mesh.Traces
import RegionGossip.Proofs.SortedMap.Update
import RegionGossip.Proofs.Mesh.Schedule
import RegionGossip.Proofs.Mesh.Convergence
import RegionGossip.Proofs.Resource.SumMerge
import RegionGossip.Proofs.Resource.Grouping
import RegionGossip.Plan.Call
import RegionGossip.Proofs.Plan.Calls
import RegionGossip.Proofs.Plan.Assignment
import RegionGossip.Proofs.Plan.Seeding
import RegionGossip.Proofs.Plan.Freezing
import RegionGossip.Plan.Round
import RegionGossip.Proofs.Plan.Entries
import RegionGossip.Proofs.Plan.Persistence
import RegionGossip.Execution.Operated
import RegionGossip.Proofs.Execution.Ledger
import RegionGossip.Proofs.Execution.Accounts
import RegionGossip.Proofs.Link.Reading
import RegionGossip.Proofs.Manager.Changes
import RegionGossip.Manager.Run
import RegionGossip.Proofs.Manager.Reading
import RegionGossip.Proofs.Manager.Verdicts
import RegionGossip.Proofs.Manager.Surroundings
import RegionGossip.Proofs.Manager.Snapshot
import RegionGossip.Proofs.Manager.Standing
import RegionGossip.Proofs.Manager.Remembered
import RegionGossip.Proofs.Manager.Reported
import RegionGossip.Proofs.Wire.Stream
import RegionGossip.Proofs.Text.Utf8
import RegionGossip.Proofs.Json.Scanning
import RegionGossip.Proofs.Json.Cuts
import RegionGossip.Proofs.Wire.Prefixes
import RegionGossip.Proofs.Wire.Truncated
import RegionGossip.Proofs.Wire.Apart
import RegionGossip.Proofs.Manager.Locality
import RegionGossip.Proofs.Resource.Absorbed
import RegionGossip.Proofs.Resource.Average
import RegionGossip.Proofs.Manager.Dismissals
import RegionGossip.Proofs.Manager.Stops
import RegionGossip.Execution.Contended
import RegionGossip.Proofs.Execution.Contention
import RegionGossip.Proofs.Plan.Consistency
import RegionGossip.Proofs.Plan.Revisions
import RegionGossip.Proofs.Resource.Regrouping
import RegionGossip.Proofs.Resource.Pointwise
import RegionGossip.Proofs.Kernel.Heard
import RegionGossip.Proofs.Plan.Carried
import RegionGossip.Proofs.Wire.Greeting
import RegionGossip.Proofs.Manager.Broadcast
import RegionGossip.Proofs.Address.Grammar
import RegionGossip.HashedMap
import RegionGossip.Proofs.Ident.Folding
import RegionGossip.Proofs.HashedMap.Lookup
import RegionGossip.Proofs.Ident.Tables
import RegionGossip.Proofs.Binary64.Value
import RegionGossip.Proofs.Settings.Tuning
import RegionGossip.Proofs.Binary64.Rounding
import RegionGossip.Proofs.Binary64.Nearness
import RegionGossip.Proofs.Binary64.Shortest
import RegionGossip.Proofs.Binary64.Arithmetic
import RegionGossip.Proofs.Binary64.Written
import RegionGossip.Proofs.Json.Scaling
import RegionGossip.Proofs.Json.Floats
import RegionGossip.Proofs.Value.Floats
import RegionGossip.Proofs.Wire.Relay
import RegionGossip.Proofs.CommandLine.Options
import RegionGossip.Proofs.Node.Addresses
import RegionGossip.Proofs.Link.Nonce
