import LockElision.Lock

/-!
# Workloads

What one operation of a throughput run does to the locks, and how it enters them.
-/

namespace LockElision

/-- How a critical section is entered. -/
inductive LockMode where
  /-- The real lock on every call. -/
  | raw
  /-- Shielded; the thread must not have the lock yet. -/
  | shieldedStrict
  /-- Shielded; nested entries are elided. -/
  | shieldedReentrant
  /-- The read side of a reader/writer lock on every call. -/
  | rawShared
  /-- The read side, shielded; nested reads are elided. -/
  | shieldedShared
  deriving DecidableEq, Repr

namespace LockMode

def isShared : LockMode → Bool
  | rawShared | shieldedShared => true
  | _ => false

def isShielded : LockMode → Bool
  | raw | rawShared => false
  | _ => true

/-- Only the strict mode refuses a second entry. -/
def reentrancy : LockMode → Reentrancy
  | shieldedStrict => .strict
  | _ => .reentrant

def name : LockMode → String
  | raw => "raw"
  | shieldedStrict => "shielded_strict"
  | shieldedReentrant => "shielded_reentrant"
  | rawShared => "raw_shared"
  | shieldedShared => "shielded_shared"

def inspect : LockMode → String
  | raw => "Raw"
  | shieldedStrict => "ShieldedStrict"
  | shieldedReentrant => "ShieldedReentrant"
  | rawShared => "RawShared"
  | shieldedShared => "ShieldedShared"

def all : List LockMode := [raw, shieldedStrict, shieldedReentrant, rawShared, shieldedShared]

end LockMode

inductive Workload where
  /-- One lock, entered and left. -/
  | flat
  /-- One lock, entered `depth` times before it is left. -/
  | nested (depth : UInt64)
  /-- One lock of each of `depth` levels in a row, entered in level order. -/
  | hierarchical (levels locksPerLevel depth : UInt64)
  deriving DecidableEq, Repr

namespace Workload

def name : Workload → String
  | flat => "flat"
  | nested _ => "nested"
  | hierarchical _ _ _ => "hierarchical"

/-- Distinct locks that one operation has at once. -/
def fanout : Workload → UInt64
  | hierarchical _ _ depth => depth
  | _ => 1

/-- The numbers of a workload, by name. -/
def fields : Workload → List (String × UInt64)
  | flat => []
  | nested depth => [("depth", depth)]
  | hierarchical levels locksPerLevel depth =>
    [("levels", levels), ("locks_per_level", locksPerLevel), ("depth", depth)]

def inspect (w : Workload) : String :=
  let fields := w.fields.map fun (name, n) => (name, toString n.toNat)
  match w with
  | flat => "Flat"
  | nested _ => Inspect.record "Nested" fields
  | hierarchical _ _ _ => Inspect.record "Hierarchical" fields

end Workload

end LockElision
