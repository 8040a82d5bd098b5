import LockElision.Mixing

/-!
# Choices

The choices of one worker: what its `k`-th draw of a number up to `n` gives. No answer of a run
depends on them, so any sequence will do.
-/

namespace LockElision

abbrev Choices := Nat → (n : Nat) → Fin (n + 1)

namespace Choices

def seeded (seed : UInt64) : Choices := fun k n =>
  Fin.ofNat (n + 1) (mix (seed + UInt64.ofNat (k + 1) * stride)).toNat

/-- Each worker of a run draws from a seed of its own. -/
def ofWorker (seed worker : UInt64) : Choices := seeded (seed ^^^ (worker * stride))

end Choices

end LockElision
