import LockElision.Bench.Plan
import LockElision.Json.Compact

/-!
# Reports

What a throughput run measured, as a row of comma-separated values and as JSON.
-/

namespace LockElision

structure Report where
  threads : UInt64
  mode : LockMode
  workload : Workload
  /-- The kind of directory that was used. -/
  strategy : Strategy
  seconds : Float
  operations : UInt64
  rate : Float
  deriving BEq

namespace Report

def csvHeader : String := "threads,secs,ops_per_sec"

def csv (r : Report) : String :=
  toString r.threads.toNat ++ "," ++ fixedPlaces 6 r.seconds ++ "," ++ fixedPlaces 2 r.rate

def inspect (r : Report) : String :=
  Inspect.record "BenchReport"
    [("threads", toString r.threads.toNat), ("mode", r.mode.inspect),
      ("workload", r.workload.inspect), ("strategy", r.strategy.inspect),
      ("duration_secs", Inspect.double r.seconds),
      ("total_operations", toString r.operations.toNat), ("ops_per_sec", Inspect.double r.rate)]

end Report

end LockElision
