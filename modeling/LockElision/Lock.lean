import LockElision.Text.Inspect

/-!
# Locks

A lock is known by its 64-bit identity alone: identities are compared, hashed and shown, never
followed. A `Holding` is what one thread remembers of a lock it has: the lock and how deep.
-/

namespace LockElision

structure LockId where
  raw : UInt64
  deriving DecidableEq, Repr, Inhabited

/-- Lowercase hexadecimal without leading zeros. -/
def LockId.label (id : LockId) : String :=
  "lock@0x" ++ String.ofList (Nat.toDigits 16 id.raw.toNat)

def LockId.inspect (id : LockId) : String := Inspect.tuple "LockId" [toString id.raw.toNat]

/-- One lock a thread has, entered `depth` times and not yet left as often. The depth has no bound:
to nest a lock deeper than 32 bits count is the caller's mistake, and is left out. -/
structure Holding where
  lock : LockId
  depth : Nat
  deriving DecidableEq, Repr, Inhabited

/-- A lock just entered through the real operation. -/
def Holding.first (lock : LockId) : Holding := ⟨lock, 1⟩

/-- What fills a place that holds no lock. -/
def Holding.vacant : Holding := ⟨⟨0⟩, 0⟩

def Holding.inspect (h : Holding) : String :=
  Inspect.record "LockRecord"
    [("identity", h.lock.inspect), ("recursion_count", toString h.depth)]

/-- Whether the caller may already have the lock it enters. -/
inductive Reentrancy where
  | reentrant
  | strict
  deriving DecidableEq, Repr

def Reentrancy.isReentrant : Reentrancy → Bool
  | .reentrant => true
  | .strict => false

def Reentrancy.name : Reentrancy → String
  | .reentrant => "Reentrant"
  | .strict => "Strict"

def Reentrancy.ofBool (reentrant : Bool) : Reentrancy :=
  if reentrant then .reentrant else .strict

end LockElision
