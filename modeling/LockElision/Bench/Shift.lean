import LockElision.Bench.Operation
import LockElision.Bench.RunFault
import LockElision.Directory.Slots
import LockElision.Event

/-!
# Shifts

Everything one worker does in a run: operations to warm up, a wait at the start gate, and its share
of the timed operations. The worker starts with an empty directory of the kind that the plan
resolves to, and nobody else uses it, so a shift can be worked out before it is known who else runs
when.
-/

namespace LockElision

/-- Where a run takes place. -/
structure Site where
  address : BenchLock → LockId
  hash : LockId → UInt64
  /-- The size of pooled directories. -/
  sizing : PoolSizing
  choices : (worker : UInt64) → Choices
  /-- How many processors workers can be bound to. -/
  processors : UInt64

/-- Some operations in a row: the real calls and the nodes made, oldest first, how it ended, and
what the directory held then. -/
structure Stretch where
  steps : List RealStep
  notices : List Exhaustion
  result : Except Interruption Unit
  holdings : List Holding

structure Shift where
  warmup : Stretch
  /-- What follows the start; nothing if the warm-up failed. -/
  timed : Stretch
  /-- How many operations are timed. -/
  share : UInt64

namespace Stretch

variable {D : Type} [Directory D]

/-- The notes that a worker made since it had none. -/
def ofWorker (w : Worker D) (result : Except Interruption Unit) : Stretch :=
  ⟨w.steps.reverse, w.notices.reverse, result, Directory.holdings w.directory⟩

/-- What becomes of a worker that stopped. -/
def skipped (warmup : Stretch) : Stretch := { warmup with steps := [], notices := [] }

end Stretch

namespace Shift

variable {D : Type} [Directory D]

/-- A shift that starts from a directory. -/
def on (d : D) (operation : WorkM D Unit) (warmup share : UInt64) : Shift :=
  match Operation.times operation warmup.toNat (Worker.start d) with
  | .error interruption w =>
    let warmup := Stretch.ofWorker w (.error interruption)
    ⟨warmup, warmup.skipped, share⟩
  | .ok _ w =>
    let timed :=
      match Operation.times operation share.toNat { w with steps := [], notices := [] } with
      | .error interruption w => Stretch.ofWorker w (.error interruption)
      | .ok _ w => Stretch.ofWorker w (.ok ())
    ⟨Stretch.ofWorker w (.ok ()), timed, share⟩

/-- What a worker reports that was let through the gate, or was not. -/
def result (shift : Shift) (started : Bool) : Except Interruption UInt64 := do
  shift.warmup.result
  if started then
    shift.timed.result
    return shift.share
  else return 0

def notices (shift : Shift) : List Exhaustion := shift.warmup.notices ++ shift.timed.notices

end Shift

/-- How many locks each level of the hierarchy has. -/
def Workload.locksPerLevel : Workload → UInt64
  | hierarchical _ locksPerLevel _ => locksPerLevel
  | _ => 0

/-- A place for a plan, with the choices of its seed. -/
def Plan.site (hash : LockId → UInt64) (sizing : PoolSizing) (processors : UInt64) (p : Plan) :
    Site where
  address := BenchLock.address p.workload.locksPerLevel.toNat
  hash := hash
  sizing := sizing
  choices := Choices.ofWorker p.seed
  processors := processors

/-- The shift of one worker of a plan. -/
def Plan.shift (site : Site) (p : Plan) (worker : UInt64) : Shift :=
  let choices := site.choices worker
  let share := p.share worker
  match p.resolvedStrategy with
  | .pooled =>
    Shift.on (site.sizing.directory site.hash) (p.operation site.address choices) p.warmup share
  | _ => Shift.on (SlotTable.empty tableCapacity) (p.operation site.address choices) p.warmup share

end LockElision
