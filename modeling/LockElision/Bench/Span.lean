import LockElision.Event

/-!
# Run spans

The stretch of a throughput run, as a listener sees it: it opens, operations may be recorded on it,
and it ends. Runs are numbered in the order in which they open.
-/

namespace LockElision

structure RunSpan where
  number : Nat
  workload : String
  threads : UInt64
  deriving DecidableEq, Repr

namespace RunSpan

/-- The next run after run number `last`. -/
def start (last : Nat) (workload : String) (threads : UInt64) : RunSpan :=
  ⟨last + 1, workload, threads⟩

def fields (s : RunSpan) : EventFields :=
  [("workload", .text s.workload), ("threads", .number s.threads.toNat)]

def opened (s : RunSpan) : List Event :=
  [.span "run" s.fields, .message .tracing .debug "run started" s.fields]

def recorded (operations : Nat) : Event := .record [("operations", .number operations)]

/-- Said on every way out of a run, in under a minute. -/
def ended : Event := .message .tracing .debug "run completed" []

end RunSpan

end LockElision
