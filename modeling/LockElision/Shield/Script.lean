import LockElision.Shield.Call
import LockElision.Directory.Command

/-!
# Scripts

A script is a finite tree of shielded calls on one directory: each call says what its real
operation does if it is called, which is to run a script of its own and then, perhaps, break off.
A break-off is caught right outside its call. Between the calls stand enquiries, and commands that
go to the directory behind the shield's back.

`Script.run` plays a script on a `Desk`: a directory, the journal of everything that happened, and
the news not yet handed on. The script of a call's real operation is its first child, the call after
it its next sibling, so running is structural recursion.
-/

namespace LockElision

/-- What one may ask a shield without changing anything. -/
inductive Enquiry where
  | depth (lock : LockId)
  | holds (lock : LockId)
  | heldCount
  | heldLocks
  | capacity
  | usage
  deriving Repr

inductive Side where
  | lock
  | unlock
  deriving DecidableEq, Repr

inductive Script where
  | done
  | enquire (enquiry : Enquiry) (next : Script)
  | command (command : DirectoryCommand) (next : Script)
  | call (side : Side) (call : Call) (inner : Script) (panic : Option Panic) (next : Script)

/-- What a journal holds: bookkeeping steps, and calls that reached the real operation. -/
inductive Happening where
  | booked (booking : Booking)
  | called (side : Side) (call : Call)
  deriving DecidableEq, Repr

structure Desk (D : Type) where
  directory : D
  /-- Newest first. -/
  journal : List Happening
  /-- Nodes made and not yet reported, oldest first. -/
  unread : List Exhaustion

namespace Desk

variable {D : Type}

def start (d : D) : Desk D := ⟨d, [], []⟩

def scope : Scope (Desk D) D where
  directory := Desk.directory
  book booking d desk :=
    ⟨d, .booked booking :: desk.journal, desk.unread ++ booking.notice?.toList⟩

/-- The real calls on a lock, newest first. -/
def callsOn (desk : Desk D) (lock : LockId) : List Side :=
  desk.journal.filterMap fun
    | .called side call => if call.lock = lock then some side else none
    | .booked _ => none

/-- A lock whose operations never wait is locked when the last real call on it was to lock it. -/
def isLocked (desk : Desk D) (lock : LockId) : Bool := (desk.callsOn lock).head? == some .lock

/-- How often the real operations of a lock were called. -/
structure Tally where
  lock : LockId
  locks : Nat
  unlocks : Nat
  deriving Repr

/-- Every lock that was really called at least once, by identity. -/
def tally (desk : Desk D) : List Tally :=
  let called := desk.journal.filterMap fun
    | .called _ call => some call.lock
    | .booked _ => none
  (called.eraseDups.mergeSort fun a b => a.raw ≤ b.raw).map fun lock =>
    ⟨lock, (desk.callsOn lock).count .lock, (desk.callsOn lock).count .unlock⟩

end Desk

/-- The status a call ended with. -/
inductive CallStatus where
  | acquired (status : AcquireStatus)
  | released (status : ReleaseStatus)
  deriving DecidableEq, Repr

namespace CallStatus

def name : CallStatus → String
  | acquired status => status.name
  | released status => status.name

/-- The fault a status amounts to, in a directory of that capacity; an unbounded one counts as 0. -/
def fault? (lock : LockId) (capacity : Option Nat) : CallStatus → Option Fault
  | acquired status =>
    match status.toResult lock (capacity.getD 0) with
    | .ok _ => none
    | .error fault => some fault
  | released status =>
    match status.toResult lock with
    | .ok _ => none
    | .error fault => some fault

end CallStatus

/-- What is known of a lock and its directory once a call is over. -/
structure Aftermath where
  held : Nat
  depth : Option Nat
  locked : Bool
  notices : List Exhaustion
  deriving Repr

inductive Reply where
  | depth (n : Option Nat)
  | holds (b : Bool)
  | heldCount (n : Nat)
  | heldLocks (hs : List Holding)
  | capacity (n : Option Nat)
  | usage (u : Option Usage)
  | command (reply : DirectoryReply)
  /-- Says by `real` whether the real operation was called; `inner` is what its script answered. -/
  | call (side : Side) (call : Call) (ended : Except Panic CallStatus) (real : Bool)
      (inner : List Reply) (after : Aftermath)

variable {D : Type} [Inspectable D]

def Enquiry.answer (d : D) : Enquiry → Reply
  | depth lock => .depth ((Directory.find? d lock).map Holding.depth)
  | holds lock => .holds (Directory.contains d lock)
  | heldCount => .heldCount (Directory.size d)
  | heldLocks => .heldLocks (Inspectable.listing d)
  | capacity => .capacity (Directory.capacity d)
  | usage => .usage (Inspectable.usage? d)

/-- Reads off what a call left behind, and hands on the news that came up so far. -/
def Desk.conclude (desk : Desk D) (lock : LockId) : Aftermath × Desk D :=
  (⟨Directory.size desk.directory, (Directory.find? desk.directory lock).map Holding.depth,
    desk.isLocked lock, desk.unread⟩, { desk with unread := [] })

def Outcome.ended {S : Type} (wrap : S → CallStatus) :
    Outcome S (List Reply) → Except Panic CallStatus × Bool × List Reply
  | elided status => (.ok (wrap status), false, [])
  | forwarded status inner => (.ok (wrap status), true, inner)
  | unwound panic inner => (.error panic, true, inner)

namespace Script

/-- Plays a script; one reply for each of its steps. -/
def run : Script → Desk D → List Reply × Desk D
  | done, desk => ([], desk)
  | enquire enquiry next, desk =>
    let (replies, desk') := next.run desk
    (enquiry.answer desk.directory :: replies, desk')
  | command c next, desk =>
    let (reply, d, notices) := c.run desk.directory
    let (replies, desk) := next.run { desk with directory := d, unread := desk.unread ++ notices }
    (.command reply :: replies, desk)
  | call side c inner panic next, desk =>
    let real : Primitive (Desk D) (List Reply) := fun desk =>
      let (replies, desk) := inner.run { desk with journal := .called side c :: desk.journal }
      ((replies, panic), desk)
    let ((ended, real, answers), desk) := match side with
      | .lock =>
        let (outcome, desk) := acquire Desk.scope c real desk
        (outcome.ended .acquired, desk)
      | .unlock =>
        let (outcome, desk) := release Desk.scope c real desk
        (outcome.ended .released, desk)
    let (after, desk) := desk.conclude c.lock
    let (replies, desk) := next.run desk
    (.call side c ended real answers after :: replies, desk)

end Script

end LockElision
