import LockElision.Bench.Shift

/-!
# Crews

The threads of a run as a machine of small steps: a supervisor that starts the workers, waits until
all are ready, opens the gate and collects the results; and the workers, each with its shift. One
move is one step of one thread, so every interleaving is a list of moves. A worker has no move
while it waits for a lock that does not admit it.

The supervisor looks again and again whether all workers are ready, and between two looks whether
one has finished, which no worker should have. If so it aborts the gate. Either way it opens the
gate next.
-/

namespace LockElision

inductive Gate where
  | waiting
  | opened
  | aborted
  deriving DecidableEq, Repr

/-- Where a worker is; what is left to do stands in the order in which it is done. -/
inductive WorkerStage where
  | unborn
  | warmingUp (left : List RealStep)
  | atGate
  | timing (left : List RealStep)
  | finished (result : Except Interruption UInt64)

inductive SupervisorStage where
  /-- About to start a worker, or to wait if there are no more. -/
  | starting (worker : Nat)
  /-- About to look whether all are ready. -/
  | counting
  /-- About to look whether one has finished. -/
  | checking
  | aborting
  | opening
  /-- About to collect the result of a worker. -/
  | collecting (worker : Nat) (total : UInt64) (failure : Option RunFault)
  /-- A worker could not be started; waits for the others. -/
  | giveUp (fault : RunFault)
  | done (outcome : Except RunFault UInt64)

structure Crew where
  size : Nat
  shifts : Nat → Shift
  supervisor : SupervisorStage
  workers : Nat → WorkerStage
  occupancy : BenchLock → Occupancy
  gate : Gate
  /-- How many workers have come to the gate. -/
  ready : Nat

inductive Move where
  | supervisor
  /-- The system refuses to start the next worker, for a reason. -/
  | refuse (reason : String)
  | worker (ix : Nat)
  deriving DecidableEq, Repr

/-- The fault of a run in which a worker was interrupted. -/
def Interruption.toRunFault (worker : UInt64) : Interruption → RunFault
  | refused fault => .shield fault
  | broken _ => .panicked worker

def WorkerStage.isFinished : WorkerStage → Bool
  | finished _ => true
  | _ => false

namespace Crew

def initial (size : Nat) (shifts : Nat → Shift) : Crew where
  size := size
  shifts := shifts
  supervisor := .starting 0
  workers _ := .unborn
  occupancy _ := []
  gate := .waiting
  ready := 0

def setWorker (c : Crew) (ix : Nat) (stage : WorkerStage) : Crew :=
  { c with workers := fun i => if i = ix then stage else c.workers i }

def setOccupancy (c : Crew) (lock : BenchLock) (inside : Occupancy) : Crew :=
  { c with occupancy := fun l => if l = lock then inside else c.occupancy l }

/-- One real call of a worker, unless it has to wait. -/
def call (c : Crew) (ix : Nat) : RealStep → Option Crew
  | .enter lock =>
    let inside := c.occupancy lock
    if lock.admits inside ix then some (c.setOccupancy lock (ix :: inside)) else none
  | .leave lock => some (c.setOccupancy lock ((c.occupancy lock).erase ix))

/-- A worker whose warm-up is over comes to the gate, unless it broke off. -/
def arrive (c : Crew) (ix : Nat) : Crew :=
  match (c.shifts ix).warmup.result with
  | .error (.broken panic) => c.setWorker ix (.finished (.error (.broken panic)))
  | _ => { c.setWorker ix .atGate with ready := c.ready + 1 }

/-- A worker behind the gate; `started` is what the gate answered. -/
def goOn (c : Crew) (ix : Nat) (started : Bool) : Crew :=
  match (c.shifts ix).warmup.result, started with
  | .ok _, true => c.setWorker ix (.timing (c.shifts ix).timed.steps)
  | _, _ => c.setWorker ix (.finished ((c.shifts ix).result started))

def stepWorker (c : Crew) (ix : Nat) : Option Crew :=
  match c.workers ix with
  | .unborn | .finished _ => none
  | .warmingUp (step :: left) => (c.call ix step).map (·.setWorker ix (.warmingUp left))
  | .warmingUp [] => some (c.arrive ix)
  | .atGate =>
    match c.gate with
    | .waiting => some c
    | .opened => some (c.goOn ix true)
    | .aborted => some (c.goOn ix false)
  | .timing (step :: left) => (c.call ix step).map (·.setWorker ix (.timing left))
  | .timing [] => some (c.setWorker ix (.finished ((c.shifts ix).result true)))

/-- Whether some worker below `n` has finished. -/
def someFinished (c : Crew) (n : Nat) : Bool :=
  (List.range n).any fun i => (c.workers i).isFinished

/-- Takes down the result of a worker; the first failure counts. -/
def collect (c : Crew) (ix : Nat) (total : UInt64) (failure : Option RunFault) :
    Except Interruption UInt64 → Crew
  | .ok n => { c with supervisor := .collecting (ix + 1) (total + n) failure }
  | .error interruption =>
    let fault := interruption.toRunFault (UInt64.ofNat ix)
    { c with supervisor := .collecting (ix + 1) total (some (failure.getD fault)) }

def stepSupervisor (c : Crew) : Option Crew :=
  match c.supervisor with
  | .starting ix =>
    if ix < c.size then
      some { c.setWorker ix (.warmingUp (c.shifts ix).warmup.steps) with
        supervisor := .starting (ix + 1) }
    else some { c with supervisor := .counting }
  | .counting =>
    some { c with supervisor := if c.ready < c.size then .checking else .opening }
  | .checking =>
    some { c with supervisor := if c.someFinished c.size then .aborting else .counting }
  | .aborting => some { c with gate := .aborted, supervisor := .opening }
  | .opening => some { c with gate := .opened, supervisor := .collecting 0 0 none }
  | .collecting ix total failure =>
    if ix < c.size then
      match c.workers ix with
      | .finished result => some (c.collect ix total failure result)
      | _ => none
    else
      let outcome := match failure with
        | some fault => .error fault
        | none => .ok total
      some { c with supervisor := .done outcome }
  | .giveUp fault =>
    if (List.range c.size).all fun i =>
      match c.workers i with
      | .unborn | .finished _ => true
      | _ => false
    then some { c with supervisor := .done (.error fault) } else none
  | .done _ => none

/-- The supervisor aborts the gate when a worker cannot be started. -/
def refuse (c : Crew) (reason : String) : Option Crew :=
  match c.supervisor with
  | .starting ix =>
    if ix < c.size then
      some { c with
        gate := .aborted
        supervisor := .giveUp (.notStarted (UInt64.ofNat ix) reason) }
    else none
  | _ => none

def step (c : Crew) : Move → Option Crew
  | .supervisor => c.stepSupervisor
  | .refuse reason => c.refuse reason
  | .worker ix => c.stepWorker ix

/-- Plays some moves; `none` if one of them is not possible. -/
def play (c : Crew) (moves : List Move) : Option Crew := moves.foldlM step c

end Crew

/-- The crew of a plan, before its first worker is started. -/
def Plan.crew (site : Site) (p : Plan) : Crew :=
  Crew.initial p.threads.toNat fun ix => p.shift site (UInt64.ofNat ix)

end LockElision
