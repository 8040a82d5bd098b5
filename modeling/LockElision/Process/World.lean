import LockElision.Shield.Admission
import LockElision.Process.Shelf
import LockElision.Event

/-!
# Threads, mutexes and the pool setting

One process with any number of threads and mutexes, as a machine of small steps. `World.step` lets
one thread take one step: the start of an operation, or the next step of an operation it is in the
middle of. What a step may do to more than its own thread is one read or write of one raw lock, or
of the pool setting, so every interleaving of threads is a sequence of steps.

Entering a mutex writes the record first and takes the raw lock next; trying a mutex takes the raw
lock first and gives it back when there is no room for the record. Leaving removes the record first.
A thread waits only before taking a raw lock somebody has: then it has no step.
-/

namespace LockElision

structure Mutex where
  lock : LockId
  backing : Backing
  /-- Whether anyone has the raw lock. -/
  locked : Bool
  lockCalls : Nat
  tryCalls : Nat
  unlockCalls : Nat
  deriving DecidableEq, Repr

/-- Which mutex, and which thread. -/
abbrev MutexIx := Nat

abbrev ThreadIx := Nat

/-- Where a thread keeps a guard: in a slot of its own, or in the call that runs a closure. -/
inductive GuardKey where
  | slot (n : Nat)
  | frame (depth : Nat)
  deriving DecidableEq, Repr

/-- The operation a thread is in the middle of. -/
inductive Stage where
  | idle
  /-- The mutex is recorded; the raw lock comes next. -/
  | taking (m : MutexIx) (key : GuardKey)
  /-- The raw lock is taken, or was before; the record comes next. -/
  | recording (m : MutexIx) (key : GuardKey)
  /-- There was no room for the record; the raw unlock comes next. -/
  | undoing (m : MutexIx)
  /-- The record is gone; the raw unlock comes next. -/
  | leaving (m : MutexIx)
  deriving DecidableEq, Repr

structure Thread where
  running : Bool
  /-- The directories of the shields anyone may use. -/
  shared : Shelf
  /-- The directories of the mutexes' guards. -/
  guarded : Shelf
  guards : List (GuardKey × MutexIx)
  /-- The mutexes of guards that were given up without being dropped. -/
  forgotten : List MutexIx
  stage : Stage

def Thread.fresh : Thread := ⟨false, Shelf.fresh, Shelf.fresh, [], [], .idle⟩

namespace Thread

def guard? (th : Thread) (key : GuardKey) : Option MutexIx := th.guards.lookup key

def hold (th : Thread) (key : GuardKey) (m : MutexIx) : Thread :=
  { th with guards := (key, m) :: th.guards, stage := .idle }

def letGo (th : Thread) (key : GuardKey) : Thread :=
  { th with guards := th.guards.eraseP (·.1 == key) }

end Thread

structure World where
  hash : LockId → UInt64
  /-- The pool sizing somebody installed. -/
  setting : Option PoolSizing
  mutexes : MutexIx → Mutex
  threads : ThreadIx → Thread

inductive Action where
  /-- Goes on with the operation the thread is in the middle of. -/
  | proceed
  | lock (m : MutexIx) (key : GuardKey)
  | tryLock (m : MutexIx) (key : GuardKey)
  | drop (key : GuardKey)
  | forget (key : GuardKey)
  /-- Ends the thread, which has no guards left; its directories go with it. -/
  | exit
  /-- How deep the thread is in a mutex. -/
  | depth (m : MutexIx)
  | acquire (backing : Backing) (lock : LockId) (mode : Reentrancy)
  | release (backing : Backing) (lock : LockId) (mode : Reentrancy)
  /-- The real lock of an acquire broke off, which takes its record along. -/
  | rollBack (backing : Backing) (lock : LockId)
  | sharedDepth (backing : Backing) (lock : LockId)
  | sharedCount (backing : Backing)
  | sharedUsage
  | install (sizing : PoolSizing)
  | sizing
  deriving DecidableEq, Repr

inductive Answer where
  /-- The operation has more steps to take. -/
  | pending
  /-- A guard was handed out. -/
  | locked
  | refused (fault : Fault)
  /-- A try that got no guard. -/
  | missed
  | dropped
  | forgotten
  | exited
  | depth (n : Option Nat)
  | count (n : Nat)
  | acquired (status : AcquireStatus)
  | released (status : ReleaseStatus)
  | rolledBack (removed : Option Holding)
  | usage (u : Option Usage)
  | installed
  | sizing (s : PoolSizing)
  /-- A guard was dropped whose mutex is not recorded. -/
  | orphaned
  deriving DecidableEq, Repr

structure Step where
  world : World
  answer : Answer
  events : List Event

namespace World

/-- The pool sizing in force. -/
def inForce (w : World) : PoolSizing := w.setting.getD .standard

/-- What a pooled directory starts as if it is first used now. -/
def newPooled (w : World) : PooledDirectory := w.inForce.directory w.hash

def setThread (w : World) (t : ThreadIx) (th : Thread) : World :=
  { w with threads := fun i => if i = t then th else w.threads i }

def setMutex (w : World) (m : MutexIx) (mx : Mutex) : World :=
  { w with mutexes := fun i => if i = m then mx else w.mutexes i }

/-- Uses a guard directory of a thread: that of the mutex's backing. -/
def useGuarded {α : Type} (w : World) (t : ThreadIx) (backing : Backing)
    (f : {D : Type} → [Inspectable D] → D → α × D) : α × Thread :=
  let th := w.threads t
  let (a, shelf) := th.guarded.use w.newPooled backing f
  (a, { th with running := true, guarded := shelf })

/-- Uses a directory of a thread that is open to everyone. -/
def useShared {α : Type} (w : World) (t : ThreadIx) (backing : Backing)
    (f : {D : Type} → [Inspectable D] → D → α × D) : α × Thread :=
  let th := w.threads t
  let (a, shelf) := th.shared.use w.newPooled backing f
  (a, { th with running := true, shared := shelf })

/-- Asks for one more level of a mutex in the thread's guard directory; with it, the capacity a
refusal would name. -/
def recordGuard (w : World) (t : ThreadIx) (m : MutexIx) :
    (AcquireStatus × Option Exhaustion × Nat) × Thread :=
  let mx := w.mutexes m
  w.useGuarded t mx.backing fun d =>
    let (status, d', notice) := admission d mx.lock .reentrant
    ((status, notice, (Directory.capacity d).getD 0), d')

/-- Whether the thread's guard directory has the mutex. -/
def guardDepth (w : World) (t : ThreadIx) (m : MutexIx) : Option Nat × Thread :=
  let mx := w.mutexes m
  w.useGuarded t mx.backing fun d => ((Directory.find? d mx.lock).map Holding.depth, d)

def noticed (notice : Option Exhaustion) : List Event := notice.toList.map Exhaustion.event

/-- The first step of an operation, on a thread that is in none. -/
def start (w : World) (t : ThreadIx) : Action → Option Step
  | .proceed => none
  | .lock m key =>
    let ((status, notice, capacity), th) := w.recordGuard t m
    match status.toResult (w.mutexes m).lock capacity with
    | .error fault => some ⟨w.setThread t th, .refused fault, noticed notice⟩
    | .ok .entered =>
      some ⟨w.setThread t { th with stage := .taking m key }, .pending, noticed notice⟩
    | .ok _ => some ⟨w.setThread t (th.hold key m), .locked, noticed notice⟩
  | .tryLock m key =>
    let (depth, th) := w.guardDepth t m
    let mx := w.mutexes m
    if depth.isSome then
      some ⟨w.setThread t { th with stage := .recording m key }, .pending, []⟩
    else if mx.locked then
      some ⟨(w.setMutex m { mx with tryCalls := mx.tryCalls + 1 }).setThread t th, .missed, []⟩
    else
      some ⟨(w.setMutex m { mx with locked := true, tryCalls := mx.tryCalls + 1 }).setThread t
        { th with stage := .recording m key }, .pending, []⟩
  | .drop key => do
    let m ← (w.threads t).guard? key
    let mx := w.mutexes m
    let (status, th) := w.useGuarded t mx.backing fun d => withdrawal d mx.lock .reentrant
    let th := th.letGo key
    match status with
    | .left => some ⟨w.setThread t { th with stage := .leaving m }, .pending, []⟩
    | .nested => some ⟨w.setThread t th, .dropped, []⟩
    | .unbalanced => some ⟨w.setThread t th, .orphaned, []⟩
  | .forget key => do
    let th := w.threads t
    let m ← th.guard? key
    some ⟨w.setThread t { th.letGo key with forgotten := m :: th.forgotten }, .forgotten, []⟩
  | .exit =>
    if (w.threads t).guards.isEmpty then some ⟨w.setThread t Thread.fresh, .exited, []⟩ else none
  | .depth m =>
    let (depth, th) := w.guardDepth t m
    some ⟨w.setThread t th, .depth depth, []⟩
  | .acquire backing lock mode =>
    let ((status, notice), th) := w.useShared t backing fun d =>
      let (status, d', notice) := admission d lock mode
      ((status, notice), d')
    some ⟨w.setThread t th, .acquired status, noticed notice⟩
  | .release backing lock mode =>
    let (status, th) := w.useShared t backing fun d => withdrawal d lock mode
    some ⟨w.setThread t th, .released status, []⟩
  | .rollBack backing lock =>
    let (removed, th) := w.useShared t backing fun d => LockElision.rollBack d lock
    some ⟨w.setThread t th, .rolledBack removed, []⟩
  | .sharedDepth backing lock =>
    let (depth, th) := w.useShared t backing fun d =>
      ((Directory.find? d lock).map Holding.depth, d)
    some ⟨w.setThread t th, .depth depth, []⟩
  | .sharedCount backing =>
    let (count, th) := w.useShared t backing fun d => (Directory.size d, d)
    some ⟨w.setThread t th, .count count, []⟩
  | .sharedUsage =>
    let (u, th) := w.useShared t .pooled fun d => (Inspectable.usage? d, d)
    some ⟨w.setThread t th, .usage u, []⟩
  | .install sizing =>
    match sizing.validate with
    | .error fault => some ⟨w, .refused fault.toFault, []⟩
    | .ok () =>
      match w.setting with
      | some _ => some ⟨w, .refused .poolAlreadyInstalled, []⟩
      | none => some ⟨{ w with setting := some sizing }, .installed, [sizing.installed]⟩
  | .sizing => some ⟨w, .sizing w.inForce, []⟩

/-- Gives a raw lock back. -/
def unlockRaw (w : World) (m : MutexIx) : World :=
  let mx := w.mutexes m
  w.setMutex m { mx with locked := false, unlockCalls := mx.unlockCalls + 1 }

/-- The next step of the operation a thread is in. -/
def proceed (w : World) (t : ThreadIx) : Option Step :=
  let th := w.threads t
  match th.stage with
  | .idle => none
  | .taking m key =>
    let mx := w.mutexes m
    if mx.locked then none
    else
      let w := w.setMutex m { mx with locked := true, lockCalls := mx.lockCalls + 1 }
      some ⟨w.setThread t (th.hold key m), .locked, []⟩
  | .recording m key =>
    let ((status, notice, _), th) := w.recordGuard t m
    if status.isHeld then some ⟨w.setThread t (th.hold key m), .locked, noticed notice⟩
    else some ⟨w.setThread t { th with stage := .undoing m }, .pending, noticed notice⟩
  | .undoing m => some ⟨(w.unlockRaw m).setThread t { th with stage := .idle }, .missed, []⟩
  | .leaving m => some ⟨(w.unlockRaw m).setThread t { th with stage := .idle }, .dropped, []⟩

/-- One step of one thread; `none` if the thread cannot take it. -/
def step (w : World) (t : ThreadIx) (action : Action) : Option Step :=
  if action = .proceed then w.proceed t
  else if (w.threads t).stage = .idle then w.start t action
  else none

/-- An operation from its first step to its last, with no other thread between. No operation has
more than three steps. -/
def perform (w : World) (t : ThreadIx) (action : Action) : Option Step := do
  let first ← w.step t action
  let second ← onward first
  onward second
where
  onward (s : Step) : Option Step :=
    if s.answer = .pending then
      (s.world.step t .proceed).map fun next => { next with events := s.events ++ next.events }
    else some s

end World

end LockElision
