import LockElision.Bench.Choices
import LockElision.Bench.Crew
import LockElision.Bench.Lockset
import LockElision.Bench.Operation
import LockElision.Bench.Plan
import LockElision.Bench.Report
import LockElision.Bench.Run
import LockElision.Bench.RunFault
import LockElision.Bench.Shift
import LockElision.Bench.Span
import LockElision.Bench.Workload
import LockElision.Config.Environment
import LockElision.Config.Fault
import LockElision.Config.Settings
import LockElision.Config.Sizing
import LockElision.Directory.Basic
import LockElision.Directory.Command
import LockElision.Directory.Inspect
import LockElision.Directory.Pooled
import LockElision.Directory.Slots
import LockElision.Event
import LockElision.Fault
import LockElision.Json.Compact
import LockElision.Json.Decode
import LockElision.Json.Token
import LockElision.Json.Value
import LockElision.Lock
import LockElision.Main
import LockElision.Mixing
import LockElision.Number.Double
import LockElision.Number.Layout
import LockElision.Number.Reading
import LockElision.Number.Shortest
import LockElision.Process.PoolTrial
import LockElision.Process.Session
import LockElision.Process.Shelf
import LockElision.Process.World
import LockElision.Program.Arguments
import LockElision.Program.Launch
import LockElision.Program.LogFilter
import LockElision.Proofs.Bench.Allocation
import LockElision.Proofs.Bench.Collecting
import LockElision.Proofs.Bench.Entry
import LockElision.Proofs.Bench.Fairness
import LockElision.Proofs.Bench.Gate
import LockElision.Proofs.Bench.Headway
import LockElision.Proofs.Bench.Order
import LockElision.Proofs.Bench.Outcome
import LockElision.Proofs.Bench.Refusal
import LockElision.Proofs.Bench.Route
import LockElision.Proofs.Bench.Shares
import LockElision.Proofs.Bench.Shift
import LockElision.Proofs.Bench.Traceless
import LockElision.Proofs.Bench.Turn
import LockElision.Proofs.Bench.Waiting
import LockElision.Proofs.Config.Environment
import LockElision.Proofs.Directory.Chains
import LockElision.Proofs.Directory.Command
import LockElision.Proofs.Directory.Lawful
import LockElision.Proofs.Directory.Pool
import LockElision.Proofs.Directory.Pooled
import LockElision.Proofs.Directory.Restoring
import LockElision.Proofs.Directory.Row
import LockElision.Proofs.Directory.Sizing
import LockElision.Proofs.Directory.Slots
import LockElision.Proofs.Ledger
import LockElision.Proofs.Process.Accounts
import LockElision.Proofs.Process.Asking
import LockElision.Proofs.Process.Exclusion
import LockElision.Proofs.Process.Guards
import LockElision.Proofs.Process.Parts
import LockElision.Proofs.Process.Regular
import LockElision.Proofs.Process.Run
import LockElision.Proofs.Process.Separation
import LockElision.Proofs.Process.Session
import LockElision.Proofs.Process.Setting
import LockElision.Proofs.Process.Shared
import LockElision.Proofs.Process.Shelf
import LockElision.Proofs.Process.Stand
import LockElision.Proofs.Process.Steps
import LockElision.Proofs.Process.Trying
import LockElision.Proofs.Program.Launch
import LockElision.Proofs.Shield.Admission
import LockElision.Proofs.Shield.Balance
import LockElision.Proofs.Shield.Bookkeeping
import LockElision.Proofs.Shield.Conservation
import LockElision.Proofs.Shield.Covering
import LockElision.Proofs.Shield.Isolation
import LockElision.Proofs.Shield.Lending
import LockElision.Proofs.Shield.Nesting
import LockElision.Proofs.Shield.Reference
import LockElision.Proofs.Shield.Reversal
import LockElision.Proofs.Shield.Routine
import LockElision.Proofs.Shield.Sighting
import LockElision.Proofs.Shield.Telling
import LockElision.Proofs.Shield.Unwinding
import LockElision.Proofs.Text.Numeral
import LockElision.Proofs.Text.Spelling
import LockElision.Shield.Admission
import LockElision.Shield.Call
import LockElision.Shield.Script
import LockElision.Status
import LockElision.Text.Blank
import LockElision.Text.Inspect
import LockElision.Text.Quoted
import LockElision.Text.Unshown
import LockElision.Text.Unsigned
import LockElision.Wire.Basic
import LockElision.Wire.Bench
import LockElision.Wire.Fault
import LockElision.Wire.Locks
import LockElision.Wire.Settings
