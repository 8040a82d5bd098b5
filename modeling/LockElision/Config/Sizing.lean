import LockElision.Config.Fault
import LockElision.Directory.Pooled

/-!
# Pool sizing

How large a thread's pooled directory is made: nodes beforehand, and buckets.
-/

namespace LockElision

structure PoolSizing where
  poolSize : UInt64
  bucketCount : UInt64
  deriving DecidableEq, Repr

namespace PoolSizing

def standard : PoolSizing := ⟨10, 16⟩

/-- The pool is looked at before the buckets. -/
def validate (s : PoolSizing) : Except ConfigFault Unit :=
  if poolLimit < s.poolSize.toNat then .error (.poolTooLarge s.poolSize.toNat)
  else if s.bucketCount = 0 ∨ poolLimit < s.bucketCount.toNat then
    .error (.bucketsOutOfRange s.bucketCount.toNat)
  else .ok ()

def inspect (s : PoolSizing) : String :=
  Inspect.record "PoolConfig"
    [("pool_size", toString s.poolSize.toNat), ("bucket_count", toString s.bucketCount.toNat)]

/-- An empty directory of this size. -/
def directory (hash : LockId → UInt64) (s : PoolSizing) : PooledDirectory :=
  PooledDirectory.create hash s.poolSize.toNat s.bucketCount.toNat

end PoolSizing

end LockElision
