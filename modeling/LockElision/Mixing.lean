import LockElision.Lock

/-!
# Mixing

A word whose bits all depend on all bits of another: to scatter locks over buckets, and to make
choices from a seed.
-/

namespace LockElision

/-- An odd number whose multiples spread over all 64 bits. -/
def stride : UInt64 := 0x9e3779b97f4a7c15

def mix (x : UInt64) : UInt64 :=
  let x := (x ^^^ (x >>> 30)) * 0xbf58476d1ce4e5b9
  let x := (x ^^^ (x >>> 27)) * 0x94d049bb133111eb
  x ^^^ (x >>> 31)

/-- A hash that will do for any pooled directory. -/
def LockId.scatter (lock : LockId) : UInt64 := mix (lock.raw + stride)

end LockElision
