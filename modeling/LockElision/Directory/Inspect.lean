import LockElision.Directory.Slots
import LockElision.Directory.Pooled

/-!
# Looking inside a directory

What a directory shows of itself beyond its contract: its nodes, its buckets, a listing in an order
that means something, and its inspection text.
-/

namespace LockElision

def Usage.fields (u : Usage) : List (String × Nat) :=
  [("live", u.live), ("pooled_in_use", u.pooledInUse), ("dynamic_in_use", u.dynamicInUse),
    ("free_nodes", u.freeNodes), ("pool_size", u.poolSize),
    ("dynamic_allocations", u.dynamicAllocations), ("dynamic_releases", u.dynamicReleases)]

def Usage.inspect (u : Usage) : String :=
  Inspect.record "DirectoryStats" (u.fields.map fun (name, n) => (name, toString n))

/-- By lock, then by depth. -/
def Holding.before (a b : Holding) : Bool :=
  a.lock.raw < b.lock.raw || (a.lock == b.lock && a.depth ≤ b.depth)

class Inspectable (D : Type) extends Directory D where
  usage? : D → Option Usage
  bucketCount? : D → Option Nat
  origin? : D → LockId → Option NodeOrigin
  /-- The holdings in an order that does not depend on a hash. -/
  listing : D → List Holding
  inspect : D → String

instance {n : Nat} : Inspectable (SlotTable n) where
  usage? _ := none
  bucketCount? _ := none
  origin? _ _ := none
  listing := SlotTable.holdings
  inspect t := Inspect.record "BoundedTable"
    [("slots", Inspect.list (t.slots.toList.map Holding.inspect)), ("len", toString t.size)]

instance : Inspectable PooledDirectory where
  usage? d := some d.usage
  bucketCount? d := some d.bucketCount
  origin? := PooledDirectory.origin?
  listing d := d.holdings.mergeSort Holding.before
  inspect d := Inspect.record "PooledDirectory"
    [("buckets", toString d.bucketCount), ("stats", d.usage.inspect)]

end LockElision
