import LockElision.Lock

/-!
# Directories

A directory remembers which locks one thread has and how deep. `Directory D` is what every kind
of directory offers; `increment`, `decrement` and `remove` answer `none`, and give back no
directory, exactly when the lock is not recorded, so a miss cannot change anything.
-/

namespace LockElision

/-- A pool without a free node: its size, and the locks recorded when one more came. -/
structure Exhaustion where
  poolSize : Nat
  live : Nat
  deriving DecidableEq, Repr

/-- Room was found for a lock not yet recorded, or the directory is full. -/
inductive Placement (D : Type) where
  | placed (directory : D) (notice : Option Exhaustion)
  | full (capacity : Nat)

class Directory (D : Type) where
  /-- The most locks it can hold; `none` if there is no bound. -/
  capacity : D → Option Nat
  size : D → Nat
  holdings : D → List Holding
  find? : D → LockId → Option Holding
  /-- Records, with depth 1, a lock that is not recorded yet. -/
  place : D → LockId → Placement D
  /-- One level deeper; answers the new depth. -/
  increment : D → LockId → Option (Nat × D)
  /-- One level less; answers the depth left, with 0 for a lock now forgotten. -/
  decrement : D → LockId → Option (Nat × D)
  /-- Forgets a lock whatever its depth; answers what was recorded. -/
  remove : D → LockId → Option (Holding × D)
  clear : D → D

/-- What became of a request to record a lock. -/
inductive Insertion (D : Type) where
  | placed (directory : D) (notice : Option Exhaustion)
  | full (capacity : Nat)
  /-- The lock is recorded already, which is the caller's mistake. -/
  | recordedTwice

namespace Directory

variable {D : Type} [Directory D]

def contains (d : D) (lock : LockId) : Bool := (find? d lock).isSome

def isEmpty (d : D) : Bool := size d == 0

def hasRoom (d : D) : Bool :=
  match capacity d with
  | some n => size d < n
  | none => true

/-- A lock recorded twice is noticed before the room is looked at. -/
def insert (d : D) (lock : LockId) : Insertion D :=
  if contains d lock then .recordedTwice
  else match place d lock with
    | .placed d' notice => .placed d' notice
    | .full n => .full n

end Directory

end LockElision
