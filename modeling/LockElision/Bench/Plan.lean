import LockElision.Bench.Workload
import LockElision.Config.Settings

/-!
# Plans

A plan says everything about a throughput run beforehand. `validate` finds its first fault, if it
has one; `share` splits the timed operations among the threads.
-/

namespace LockElision

structure Plan where
  threads : UInt64
  /-- Timed operations, all threads together. -/
  iterations : UInt64
  /-- Operations of each thread before the clock starts. -/
  warmup : UInt64
  /-- Units of idle work after each operation. -/
  work : UInt32
  mode : LockMode
  workload : Workload
  strategy : Strategy
  /-- Whether each thread stays on one processor. -/
  pin : Bool
  seed : UInt64
  deriving DecidableEq, Repr

namespace Plan

def standard (threads : UInt64) : Plan :=
  ⟨threads, 1000000, 10000, 0, .shieldedReentrant, .flat, .auto, false, 0x5eed⟩

def validateWorkload (mode : LockMode) : Workload → Except ConfigFault Unit
  | .flat => .ok ()
  | .nested depth =>
    if depth = 0 then .error .noNesting
    else if 1 < depth ∧ mode = .shieldedStrict then .error .strictNesting
    else .ok ()
  | .hierarchical levels locksPerLevel depth =>
    if levels = 0 ∨ locksPerLevel = 0 then .error .emptyHierarchy
    else if depth = 0 ∨ levels < depth then .error (.depthOutOfRange levels.toNat depth.toNat)
    else if mode.isShared then .error .sharedHierarchy
    else .ok ()

def validate (p : Plan) : Except ConfigFault Unit :=
  if p.threads = 0 then .error .noThreads
  else if p.iterations = 0 then .error .noIterations
  else validateWorkload p.mode p.workload

/-- The kind of directory the shielded modes use. -/
def resolvedStrategy (p : Plan) : Strategy := p.strategy.resolve p.workload.fanout

/-- The timed operations of one thread; the threads that come first share what is left over. -/
def share (p : Plan) (thread : UInt64) : UInt64 :=
  let threads := if p.threads = 0 then 1 else p.threads
  p.iterations / threads + (if thread < p.iterations % threads then 1 else 0)

def inspect (p : Plan) : String :=
  Inspect.record "BenchConfig"
    [("threads", toString p.threads.toNat), ("iterations", toString p.iterations.toNat),
      ("warmup_iterations", toString p.warmup.toNat), ("work_amount", toString p.work.toNat),
      ("mode", p.mode.inspect), ("workload", p.workload.inspect),
      ("strategy", p.strategy.inspect), ("pin_threads", Inspect.bool p.pin),
      ("seed", toString p.seed.toNat)]

end Plan

end LockElision
