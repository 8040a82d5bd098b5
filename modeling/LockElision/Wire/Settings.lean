import LockElision.Config.Settings
import LockElision.Wire.Basic

/-!
# JSON forms of settings
-/

namespace LockElision

instance : Wire Strategy := .ofNames [.bounded, .pooled, .auto] Strategy.name

instance : Wire PoolSizing where
  write s := Wire.writeNumbers
    [("pool_size", s.poolSize.toNat), ("bucket_count", s.bucketCount.toNat)]
  read? j := do
    let [poolSize, bucketCount] ← j.fields? ["pool_size", "bucket_count"] | none
    return ⟨← poolSize.word?, ← bucketCount.word?⟩

instance : Wire Settings where
  write s := Json.compactObject
    [("strategy", Wire.write s.strategy),
      ("expected_fanout", Json.compactNat s.expectedFanout.toNat),
      ("pool", Wire.write s.pool)]
  read? j := do
    let [strategy, fanout, pool] ← j.fields? ["strategy", "expected_fanout", "pool"] | none
    return ⟨← Wire.read? strategy, ← fanout.word?, ← Wire.read? pool⟩

end LockElision
