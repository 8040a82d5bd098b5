import LockElision.Bench.Workload

/-!
# The locks of a run

Every worker of a run uses the same locks: one to enter alone, one that readers share, one that its
owner may enter again, and the levels of the hierarchy. Who is inside a lock is a list of workers,
so whether one more may enter can be read off it.
-/

namespace LockElision

inductive BenchLock where
  | flat
  | shared
  | reentrant
  | level (level index : Nat)
  deriving DecidableEq, Repr

/-- A call that reached a real lock. -/
inductive RealStep where
  | enter (lock : BenchLock)
  | leave (lock : BenchLock)
  deriving DecidableEq, Repr

/-- Who is inside a lock, with one entry for every time it was entered and not yet left. -/
abbrev Occupancy := List Nat

namespace BenchLock

/-- Whether a worker may enter without waiting. -/
def admits (lock : BenchLock) (inside : Occupancy) (worker : Nat) : Bool :=
  match lock with
  | flat | level _ _ => inside.isEmpty
  | reentrant => inside.all (· == worker)
  | shared => true

/-- Where a lock lies: eight bytes apart, level after level. -/
def address (locksPerLevel : Nat) : BenchLock → LockId
  | flat => ⟨64⟩
  | shared => ⟨72⟩
  | reentrant => ⟨80⟩
  | level i j => ⟨UInt64.ofNat (128 + 8 * (i * locksPerLevel + j))⟩

end BenchLock

/-- The lock of a workload without levels. -/
def Workload.lock (w : Workload) (mode : LockMode) : BenchLock :=
  if mode.isShared then .shared
  else match w, mode with
    | .nested _, .raw => .reentrant
    | _, _ => .flat

end LockElision
