import LockElision.Lock
import LockElision.Text.Quoted

/-!
# Faults

Misuse is reported by status values; a `Fault` is the same news as an error, for callers who want
one. Each has a code, a sentence and, where something can be done about it, a hint.
-/

namespace LockElision

inductive Fault where
  /-- A strict entry to a lock the thread already has. -/
  | unbalancedLock (lock : LockId)
  /-- A release of a lock the thread does not have. -/
  | unbalancedUnlock (lock : LockId)
  /-- One lock more than the thread's directory can hold. -/
  | capacityExceeded (lock : LockId) (capacity : Nat)
  /-- The pool sizing can be set once. -/
  | poolAlreadyInstalled
  | invalidConfig (text : String)
  deriving DecidableEq, Repr

namespace Fault

/-- The sentence of a fault, with locks shown by `label`. -/
def describe (label : LockId → String) : Fault → String
  | unbalancedLock lock =>
    "Strict acquire of " ++ label lock ++ " while the current thread already holds it"
  | unbalancedUnlock lock =>
    "Release of " ++ label lock ++ " which the current thread does not hold"
  | capacityExceeded lock capacity =>
    "Lock table full: " ++ toString capacity
      ++ " distinct locks already held, cannot track " ++ label lock
  | poolAlreadyInstalled => "Pool configuration already installed"
  | invalidConfig text => "Invalid configuration: " ++ text

def message (fault : Fault) : String := fault.describe LockId.label

def kind : Fault → String
  | unbalancedLock _ => "UnbalancedLock"
  | unbalancedUnlock _ => "UnbalancedUnlock"
  | capacityExceeded _ _ => "CapacityExceeded"
  | poolAlreadyInstalled => "PoolConfigAlreadyInstalled"
  | invalidConfig _ => "InvalidConfig"

def code : Fault → String
  | unbalancedLock _ => "shield::unbalanced_lock"
  | unbalancedUnlock _ => "shield::unbalanced_unlock"
  | capacityExceeded _ _ => "shield::capacity_exceeded"
  | poolAlreadyInstalled => "shield::pool_config_installed"
  | invalidConfig _ => "shield::invalid_config"

def hint : Fault → Option String
  | unbalancedLock _ => some "Release the lock first, or acquire it in reentrant mode."
  | unbalancedUnlock _ =>
    some "Every release must match an earlier acquire on the same thread."
  | capacityExceeded _ _ =>
    some "Release a lock first, or switch this thread to the pooled directory."
  | poolAlreadyInstalled =>
    some "install_pool_config() must run once, before any thread uses the pooled directory."
  | invalidConfig _ => none

def inspect : Fault → String
  | unbalancedLock lock => Inspect.tuple "UnbalancedLock" [lock.inspect]
  | unbalancedUnlock lock => Inspect.tuple "UnbalancedUnlock" [lock.inspect]
  | capacityExceeded lock capacity =>
    Inspect.record "CapacityExceeded" [("lock", lock.inspect), ("capacity", toString capacity)]
  | poolAlreadyInstalled => "PoolConfigAlreadyInstalled"
  | invalidConfig text => Inspect.tuple "InvalidConfig" [Inspect.quoted text]

end Fault

end LockElision
