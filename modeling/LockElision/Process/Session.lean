import LockElision.Process.World

/-!
# Sessions

A session is a list of operations on mutexes and shields, each done by a named thread from its first
step to its last before the next begins. So a session is one particular schedule of `World.step`.

`within` runs a closure under a mutex: it enters, plays the closure's operations on the same thread,
and drops its guard whether the closure returned or broke off. An operation that would wait for ever
is not begun, and neither is one whose guard has nowhere to go.
-/

namespace LockElision

/-- Which lock a shield open to everyone is asked about: a mutex's own, or any other. -/
inductive Target where
  | mutex (m : MutexIx)
  | lock (lock : LockId)
  deriving DecidableEq, Repr

inductive SessionAct where
  | lock (m : MutexIx) (slot : Nat)
  | tryLock (m : MutexIx) (slot : Nat)
  | drop (slot : Nat)
  | forget (slot : Nat)
  | guard (slot : Nat)
  | depth (m : MutexIx)
  | held (m : MutexIx)
  | inspect (m : MutexIx)
  | acquire (backing : Backing) (target : Target) (mode : Reentrancy)
  | release (backing : Backing) (target : Target) (mode : Reentrancy)
  | count (backing : Backing) (target : Target)
  | heldCount (backing : Backing)
  | usage
  | exit
  deriving DecidableEq, Repr

inductive SessionScript where
  | done
  | act (t : ThreadIx) (act : SessionAct) (next : SessionScript)
  | within (t : ThreadIx) (m : MutexIx) (slot : Option Nat) (closure : SessionScript)
      (panic : Option String) (next : SessionScript)

inductive SessionReply where
  | locked
  | slotBusy
  | wouldBlock
  | refused (m : MutexIx) (fault : Fault)
  | missed
  | flag (b : Bool)
  | guard (m : Option MutexIx)
  | number (n : Option Nat)
  | inspected (locked : Bool) (depth : Nat)
  | acquired (status : AcquireStatus)
  | released (status : ReleaseStatus)
  | usage (u : Option Usage)
  | within (closure : List SessionReply) (panic : Option String)

/-- How a mutex and its guard show themselves; `lock` is the text of the identity. -/
def Mutex.inspect (lock : String) (locked : Bool) (depth : Nat) : String :=
  Inspect.record "ShieldedMutex"
    [("id", Inspect.tuple "LockId" [lock]), ("locked", Inspect.bool locked),
      ("depth_on_current_thread", toString depth)]

def inspectGuard (lock : String) : String :=
  Inspect.record "ShieldGuard" [("mutex", Inspect.tuple "LockId" [lock])]

/-- What one sees after a step: its reply, the mutexes, and what was announced meanwhile. -/
structure Scene where
  reply : SessionReply
  mutexes : MutexIx → Mutex
  events : List Event

namespace World

def target (w : World) : Target → LockId
  | .mutex m => (w.mutexes m).lock
  | .lock lock => lock

/-- Whether entering the mutex would make the thread wait: somebody has the raw lock, and the
thread's guards do not know the mutex. -/
def wouldWait (w : World) (t : ThreadIx) (m : MutexIx) : Bool :=
  (w.mutexes m).locked && (w.guardDepth t m).1.isNone

/-- An operation carried out to its end, and what it answers. -/
def carryOut (w : World) (t : ThreadIx) (action : Action) (reply : Answer → SessionReply) :
    SessionReply × World × List Event :=
  match w.perform t action with
  | some s => (reply s.answer, s.world, s.events)
  | none => (.wouldBlock, w, [])

/-- Ends a thread: its guards are dropped slot by slot, and its directories go with it. -/
def finish (w : World) (t : ThreadIx) : World × List Event :=
  let keys := ((w.threads t).guards.map Prod.fst).mergeSort fun
    | .slot a, .slot b => a ≤ b
    | _, _ => true
  let (w, events) := keys.foldl (fun (w, events) key =>
    let (_, w, more) := w.carryOut t (.drop key) fun _ => .flag true
    (w, events ++ more)) (w, [])
  let (_, w, more) := w.carryOut t .exit fun _ => .flag true
  (w, events ++ more)

def entered (m : MutexIx) : Answer → SessionReply
  | .locked => .locked
  | .refused fault => .refused m fault
  | _ => .missed

def depthOf : Answer → Nat
  | .depth (some n) => n
  | _ => 0

/-- One operation of a session. -/
def act (w : World) (t : ThreadIx) : SessionAct → SessionReply × World × List Event
  | .lock m slot =>
    if ((w.threads t).guard? (.slot slot)).isSome then (.slotBusy, w, [])
    else if w.wouldWait t m then (.wouldBlock, w, [])
    else w.carryOut t (.lock m (.slot slot)) (entered m)
  | .tryLock m slot =>
    if ((w.threads t).guard? (.slot slot)).isSome then (.slotBusy, w, [])
    else w.carryOut t (.tryLock m (.slot slot)) (entered m)
  | .drop slot =>
    if ((w.threads t).guard? (.slot slot)).isSome then
      w.carryOut t (.drop (.slot slot)) fun _ => .flag true
    else (.flag false, w, [])
  | .forget slot =>
    if ((w.threads t).guard? (.slot slot)).isSome then
      w.carryOut t (.forget (.slot slot)) fun _ => .flag true
    else (.flag false, w, [])
  | .guard slot => (.guard ((w.threads t).guard? (.slot slot)), w, [])
  | .depth m => w.carryOut t (.depth m) fun a => .number (some (depthOf a))
  | .held m => w.carryOut t (.depth m) fun a => .flag (0 < depthOf a)
  | .inspect m =>
    w.carryOut t (.depth m) fun a => .inspected (w.mutexes m).locked (depthOf a)
  | .acquire backing target mode =>
    w.carryOut t (.acquire backing (w.target target) mode) fun
      | .acquired status => .acquired status
      | _ => .missed
  | .release backing target mode =>
    w.carryOut t (.release backing (w.target target) mode) fun
      | .released status => .released status
      | _ => .missed
  | .count backing target =>
    w.carryOut t (.sharedDepth backing (w.target target)) fun
      | .depth n => .number n
      | _ => .missed
  | .heldCount backing =>
    w.carryOut t (.sharedCount backing) fun
      | .count n => .number (some n)
      | _ => .missed
  | .usage =>
    w.carryOut t .sharedUsage fun
      | .usage u => .usage u
      | _ => .missed
  | .exit =>
    if (w.threads t).running then
      let (w, events) := w.finish t
      (.flag true, w, events)
    else (.flag false, w, [])

/-- The thread is used, and so running, whatever the operation comes to. -/
def awaken (w : World) (t : ThreadIx) : World :=
  w.setThread t { w.threads t with running := true }

end World

namespace SessionScript

/-- Plays a session; `depth` counts the closures around it. -/
def play (depth : Nat) : SessionScript → World → List Scene × World
  | done, w => ([], w)
  | act t a next, w =>
    let w := if a = .exit then w else w.awaken t
    let (reply, w, events) := w.act t a
    let (scenes, w') := next.play depth w
    (⟨reply, w.mutexes, events⟩ :: scenes, w')
  | within t m slot closure panic next, w =>
    let w := w.awaken t
    let busy := slot.any fun n => ((w.threads t).guard? (.slot n)).isSome
    let (reply, w, events) :=
      if busy then (SessionReply.slotBusy, w, [])
      else if w.wouldWait t m then (.wouldBlock, w, [])
      else
        match w.carryOut t (.lock m (.frame depth)) (World.entered m) with
        | (.locked, w, events) =>
          let (scenes, w) := closure.play (depth + 1) w
          let (_, w, after) := w.carryOut t (.drop (.frame depth)) fun _ => .flag true
          (.within (scenes.map Scene.reply) panic, w,
            events ++ scenes.flatMap Scene.events ++ after)
        | refusal => refusal
    let (scenes, w') := next.play depth w
    (⟨reply, w.mutexes, events⟩ :: scenes, w')

end SessionScript

/-- A process that has just begun: nothing installed, every mutex free, no thread running. -/
def World.initial (hash : LockId → UInt64) (mutexes : MutexIx → LockId × Backing) : World where
  hash := hash
  setting := none
  mutexes m := ⟨(mutexes m).1, (mutexes m).2, false, 0, 0, 0⟩
  threads _ := Thread.fresh

/-- Ends the threads below `n`, in order. -/
def World.finishAll (w : World) (n : Nat) : World :=
  (List.range n).foldl (fun w t => (w.finish t).1) w

end LockElision
