import LockElision.Directory.Inspect
import LockElision.Status
import LockElision.Wire.Basic

/-!
# JSON forms of locks and statuses
-/

namespace LockElision

/-- A lock is its bare number. -/
instance : Wire LockId where
  write lock := Json.compactNat lock.raw.toNat
  read? j := j.word?.map LockId.mk

/-- A depth has 32 bits here. -/
instance : Wire Holding where
  write h := Wire.writeNumbers [("identity", h.lock.raw.toNat), ("recursion_count", h.depth)]
  read? j := do
    let [lock, depth] ← j.fields? ["identity", "recursion_count"] | none
    return ⟨← Wire.read? lock, (← depth.halfWord?).toNat⟩

instance : Wire NodeOrigin := .ofNames [.pool, .dynamic] NodeOrigin.name

instance : Wire Reentrancy := .ofNames [.reentrant, .strict] Reentrancy.name

instance : Wire AcquireStatus := .ofNames [.entered, .nested, .unbalanced, .full] AcquireStatus.name

instance : Wire ReleaseStatus := .ofNames [.left, .nested, .unbalanced] ReleaseStatus.name

/-- No nodes anywhere. -/
def Usage.none : Usage := ⟨0, 0, 0, 0, 0, 0, 0⟩

/-- Every count has 64 bits here. -/
instance : Wire Usage where
  write u := Wire.writeNumbers u.fields
  read? j := do
    let counts ← (← j.fields? (Usage.none.fields.map Prod.fst)).mapM Json.word?
    let [live, pooledInUse, dynamicInUse, freeNodes, poolSize, allocations, releases] :=
      counts.map UInt64.toNat | failure
    return ⟨live, pooledInUse, dynamicInUse, freeNodes, poolSize, allocations, releases⟩

end LockElision
