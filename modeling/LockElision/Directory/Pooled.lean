import LockElision.Directory.Basic

/-!
# Pooled directories

Holdings hang in chains, one chain a bucket, the bucket chosen by a hash of the lock. The nodes of
the chains come from a pool made beforehand and go back to it. When the pool is empty a node is
made on the spot, tagged `dynamic`, and thrown away once its lock leaves; each such node is
announced by an `Exhaustion`.

The hash is a field: nothing a caller can see depends on it, except the order of the holdings.
-/

namespace LockElision

inductive NodeOrigin where
  | pool
  | dynamic
  deriving DecidableEq, Repr

def NodeOrigin.name : NodeOrigin → String
  | .pool => "Pool"
  | .dynamic => "Dynamic"

structure Node where
  holding : Holding
  origin : NodeOrigin
  deriving DecidableEq, Repr

/-- How many nodes are where, and how many dynamic ones there have been. -/
structure Usage where
  live : Nat
  pooledInUse : Nat
  dynamicInUse : Nat
  freeNodes : Nat
  poolSize : Nat
  dynamicAllocations : Nat
  dynamicReleases : Nat
  deriving DecidableEq, Repr

structure PooledDirectory where
  hash : LockId → UInt64
  chains : Array (List Node)
  free : List Node
  freeCount : Nat
  poolSize : Nat
  size : Nat
  dynamicInUse : Nat
  dynamicAllocations : Nat
  dynamicReleases : Nat

namespace PooledDirectory

/-- An empty directory. The bucket count is rounded up to a power of two, and is at least one. -/
def create (hash : LockId → UInt64) (poolSize buckets : Nat) : PooledDirectory where
  hash := hash
  chains := Array.replicate (max buckets 1).nextPowerOfTwo []
  free := List.replicate poolSize ⟨Holding.vacant, .pool⟩
  freeCount := poolSize
  poolSize := poolSize
  size := 0
  dynamicInUse := 0
  dynamicAllocations := 0
  dynamicReleases := 0

def bucketCount (d : PooledDirectory) : Nat := d.chains.size

/-- The bucket count is a power of two, so masking by one less stays inside the chains. -/
def bucketIndex (d : PooledDirectory) (lock : LockId) : Nat :=
  (d.hash lock).toNat &&& (d.chains.size - 1)

def chain (d : PooledDirectory) (lock : LockId) : List Node :=
  d.chains[d.bucketIndex lock]?.getD []

def node? (d : PooledDirectory) (lock : LockId) : Option Node :=
  (d.chain lock).find? (·.holding.lock == lock)

def find? (d : PooledDirectory) (lock : LockId) : Option Holding :=
  (d.node? lock).map Node.holding

def origin? (d : PooledDirectory) (lock : LockId) : Option NodeOrigin :=
  (d.node? lock).map Node.origin

/-- Every node in a chain, bucket by bucket. -/
def nodes (d : PooledDirectory) : List Node := d.chains.toList.flatten

def holdings (d : PooledDirectory) : List Holding := d.nodes.map Node.holding

def usage (d : PooledDirectory) : Usage where
  live := d.size
  pooledInUse := d.size - d.dynamicInUse
  dynamicInUse := d.dynamicInUse
  freeNodes := d.freeCount
  poolSize := d.poolSize
  dynamicAllocations := d.dynamicAllocations
  dynamicReleases := d.dynamicReleases

/-- The first free node, or a dynamic one and the news that the pool ran dry. -/
def drawNode (d : PooledDirectory) : Node × PooledDirectory × Option Exhaustion :=
  match d.free with
  | node :: rest => (node, { d with free := rest, freeCount := d.freeCount - 1 }, none)
  | [] =>
    (⟨Holding.vacant, .dynamic⟩,
      { d with
        dynamicInUse := d.dynamicInUse + 1
        dynamicAllocations := d.dynamicAllocations + 1 },
      some ⟨d.poolSize, d.size⟩)

/-- A pool node goes to the front of the free nodes; a dynamic one is gone. -/
def returnNode (d : PooledDirectory) (node : Node) : PooledDirectory :=
  match node.origin with
  | .pool =>
    { d with
      free := { node with holding := Holding.vacant } :: d.free
      freeCount := d.freeCount + 1 }
  | .dynamic =>
    { d with dynamicInUse := d.dynamicInUse - 1, dynamicReleases := d.dynamicReleases + 1 }

def editChain (d : PooledDirectory) (lock : LockId) (f : List Node → List Node) :
    PooledDirectory :=
  { d with chains := d.chains.modify (d.bucketIndex lock) f }

def place (d : PooledDirectory) (lock : LockId) : Placement PooledDirectory :=
  let (node, d, notice) := d.drawNode
  let d := d.editChain lock ({ node with holding := Holding.first lock } :: ·)
  .placed { d with size := d.size + 1 } notice

def setDepth (d : PooledDirectory) (lock : LockId) (depth : Nat) : PooledDirectory :=
  d.editChain lock fun chain => chain.map fun node =>
    if node.holding.lock == lock then { node with holding := ⟨lock, depth⟩ } else node

def increment (d : PooledDirectory) (lock : LockId) : Option (Nat × PooledDirectory) :=
  (d.find? lock).map fun h => (h.depth + 1, d.setDepth lock (h.depth + 1))

/-- Takes a node out of its chain and recycles it. -/
def detach (d : PooledDirectory) (node : Node) : PooledDirectory :=
  let lock := node.holding.lock
  let d := d.editChain lock fun chain => chain.eraseP (·.holding.lock == lock)
  { d with size := d.size - 1 }.returnNode node

def remove (d : PooledDirectory) (lock : LockId) : Option (Holding × PooledDirectory) :=
  (d.node? lock).map fun node => (node.holding, d.detach node)

def decrement (d : PooledDirectory) (lock : LockId) : Option (Nat × PooledDirectory) :=
  (d.node? lock).map fun node =>
    let depth := node.holding.depth
    if 1 < depth then (depth - 1, d.setDepth lock (depth - 1)) else (0, d.detach node)

/-- Recycles every node, bucket by bucket. -/
def clear (d : PooledDirectory) : PooledDirectory :=
  let emptied := { d with chains := d.chains.map fun _ => [] }
  { d.nodes.foldl returnNode emptied with size := 0 }

instance : Directory PooledDirectory where
  capacity _ := none
  size := PooledDirectory.size
  holdings := holdings
  find? := find?
  place := place
  increment := increment
  decrement := decrement
  remove := remove
  clear := clear

end PooledDirectory

end LockElision
