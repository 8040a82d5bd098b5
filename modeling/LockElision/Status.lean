import LockElision.Fault

/-!
# Statuses

What a shielded acquire or release did. The status is the whole report: nothing is logged and
nothing fails on misuse, and `toResult` turns the three refusals into faults on request.
-/

namespace LockElision

inductive AcquireStatus where
  /-- The real lock ran; the thread has the lock once. -/
  | entered
  /-- The thread had the lock; one level deeper, no real call. -/
  | nested
  /-- A strict entry to a lock the thread has; no real call. -/
  | unbalanced
  /-- No room to remember one more lock; no real call. -/
  | full
  deriving DecidableEq, Repr

namespace AcquireStatus

def forwarded : AcquireStatus → Bool
  | entered => true
  | _ => false

def elided : AcquireStatus → Bool
  | nested => true
  | _ => false

/-- Meant to say whether the thread has the lock after the call. It overlooks a strict entry that
was refused because the thread has the lock. -/
def isHeld : AcquireStatus → Bool
  | entered | nested => true
  | _ => false

def isUnbalanced : AcquireStatus → Bool
  | unbalanced => true
  | _ => false

/-- The capacity only describes a full directory. -/
def toResult (lock : LockId) (capacity : Nat) : AcquireStatus → Except Fault AcquireStatus
  | entered => .ok entered
  | nested => .ok nested
  | unbalanced => .error (.unbalancedLock lock)
  | full => .error (.capacityExceeded lock capacity)

def name : AcquireStatus → String
  | entered => "AcquireNow"
  | nested => "SkipAcquisition"
  | unbalanced => "UnbalancedLock"
  | full => "CapacityExceeded"

end AcquireStatus

inductive ReleaseStatus where
  /-- The real unlock ran; the thread no longer has the lock. -/
  | left
  /-- One level less; the thread still has the lock. -/
  | nested
  /-- The thread does not have the lock; no real call. -/
  | unbalanced
  deriving DecidableEq, Repr

namespace ReleaseStatus

def forwarded : ReleaseStatus → Bool
  | left => true
  | _ => false

def elided : ReleaseStatus → Bool
  | nested => true
  | _ => false

def isUnbalanced : ReleaseStatus → Bool
  | unbalanced => true
  | _ => false

def toResult (lock : LockId) : ReleaseStatus → Except Fault ReleaseStatus
  | left => .ok left
  | nested => .ok nested
  | unbalanced => .error (.unbalancedUnlock lock)

def name : ReleaseStatus → String
  | left => "ReleaseNow"
  | nested => "SkipRelease"
  | unbalanced => "UnbalancedUnlock"

end ReleaseStatus

end LockElision
