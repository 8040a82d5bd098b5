import LockElision.Bench.Choices
import LockElision.Bench.Lockset
import LockElision.Bench.Plan
import LockElision.Shield.Call

/-!
# Operations

What one worker does in one operation, on its own directory and on the locks it shares with the
others. A worker notes every real call it makes. It waits inside such a call if it has to, and
nothing else it does depends on the other workers, so its notes are the same however they
interleave.

An operation that is refused entry somewhere leaves everything it has entered before it fails. Idle
work between operations changes nothing and does not appear.
-/

namespace LockElision

/-- Why a worker stopped. -/
inductive Interruption where
  | refused (fault : Fault)
  | broken (panic : Panic)
  deriving DecidableEq, Repr

structure Worker (D : Type) where
  directory : D
  /-- Real calls, newest first. -/
  steps : List RealStep
  /-- Nodes made on the spot, newest first. -/
  notices : List Exhaustion
  /-- How many choices were drawn. -/
  drawn : Nat

abbrev WorkM (D : Type) := EStateM Interruption (Worker D)

namespace Worker

variable {D : Type}

def start (d : D) : Worker D := ⟨d, [], [], 0⟩

def note (w : Worker D) (step : RealStep) : Worker D := { w with steps := step :: w.steps }

def scope : Scope (Worker D) D where
  directory := Worker.directory
  book booking d w := { w with directory := d, notices := booking.notice?.toList ++ w.notices }

/-- A real call that is noted and comes back. -/
def perform (step : RealStep) : Primitive (Worker D) Unit := fun w => (((), none), w.note step)

end Worker

/-- A way to enter and leave a lock. -/
structure Access (D : Type) where
  enter : BenchLock → WorkM D Unit
  leave : BenchLock → WorkM D Unit

namespace Access

variable {D : Type}

/-- Every call is real. -/
def raw : Access D where
  enter lock := modify fun w => w.note (.enter lock)
  leave lock := modify fun w => w.note (.leave lock)

/-- Fails as the end of a shielded call says. -/
def settle {S : Type} (toResult : S → Except Fault S) (outcome : Outcome S Unit) : WorkM D Unit :=
  let check (status : S) : WorkM D Unit :=
    match toResult status with
    | .ok _ => pure ()
    | .error fault => throw (.refused fault)
  match outcome with
  | .elided status => check status
  | .forwarded status _ => check status
  | .unwound panic _ => throw (.broken panic)

/-- Every call goes through the shield of the worker's directory. -/
def shielded [Directory D] (address : BenchLock → LockId) (mode : Reentrancy) : Access D where
  enter lock := do
    let id := address lock
    let outcome ←
      modifyGet (acquire Worker.scope ⟨id, mode, []⟩ (Worker.perform (.enter lock)))
    let capacity := (Directory.capacity (← get).directory).getD 0
    settle (AcquireStatus.toResult id capacity) outcome
  leave lock := do
    let id := address lock
    let outcome ←
      modifyGet (release Worker.scope ⟨id, mode, []⟩ (Worker.perform (.leave lock)))
    settle (ReleaseStatus.toResult id) outcome

end Access

namespace Operation

variable {D : Type}

/-- A number up to `n`, by chance. -/
def draw (choices : Choices) (n : Nat) : WorkM D Nat :=
  modifyGet fun w => ((choices w.drawn n).val, { w with drawn := w.drawn + 1 })

/-- Enters a lock, then `more` times again, and leaves it as often. If an inner entry is refused,
the outer ones are still left. -/
def nest (access : Access D) (lock : BenchLock) : (more : Nat) → WorkM D Unit
  | 0 => do
    access.enter lock
    access.leave lock
  | more + 1 => do
    access.enter lock
    let inner ← observing (nest access lock more)
    access.leave lock
    ofExcept inner

/-- Leaves the locks entered, the last one first. -/
def leaveAll (access : Access D) : (held : List BenchLock) → WorkM D Unit
  | [] => pure ()
  | lock :: held => do
    access.leave lock
    leaveAll access held

/-- One lock of a level, by chance. -/
def pick (choices : Choices) (locksPerLevel level : Nat) : WorkM D BenchLock :=
  match locksPerLevel with
  | 0 => throw (.broken "a level without locks")
  | n + 1 => return .level level (← draw choices n)

/-- Enters a lock of each of `count` levels, upwards from `level`; answers the locks entered. If one
is refused, the locks before it are left. -/
def climb (access : Access D) (choices : Choices) (locksPerLevel : Nat) :
    (count level : Nat) → (held : List BenchLock) → WorkM D (List BenchLock)
  | 0, _, held => pure held
  | count + 1, level, held => do
    let lock ← pick choices locksPerLevel level
    try access.enter lock
    catch interruption =>
      leaveAll access held
      throw interruption
    climb access choices locksPerLevel count (level + 1) (lock :: held)

/-- Climbs `depth` levels from one that leaves room for them, and back down. -/
def walk (access : Access D) (choices : Choices) (levels locksPerLevel depth : Nat) :
    WorkM D Unit := do
  if levels < depth then throw (.broken "more levels to climb than there are")
  let start ← draw choices (levels - depth)
  leaveAll access (← climb access choices locksPerLevel depth start [])

/-- Does something `count` times, until it fails. -/
def times (operation : WorkM D Unit) : (count : Nat) → WorkM D Unit
  | 0, w => .ok () w
  | count + 1, w =>
    match operation w with
    | .ok _ w => times operation count w
    | .error interruption w => .error interruption w

end Operation

namespace Plan

variable {D : Type} [Directory D]

def access (address : BenchLock → LockId) (p : Plan) : Access D :=
  if p.mode.isShielded then .shielded address p.mode.reentrancy else .raw

/-- One operation of a plan. -/
def operation (address : BenchLock → LockId) (choices : Choices) (p : Plan) : WorkM D Unit :=
  let access := p.access address
  match p.workload with
  | .flat => Operation.nest access (p.workload.lock p.mode) 0
  | .nested depth => Operation.nest access (p.workload.lock p.mode) (depth.toNat - 1)
  | .hierarchical levels locksPerLevel depth =>
    Operation.walk access choices levels.toNat locksPerLevel.toNat depth.toNat

end Plan

end LockElision
