import LockElision.Config.Settings
import LockElision.Directory.Inspect

/-!
# A thread's directories

A thread has a slot table and a pooled directory for the shields anyone may use, and another pair
for the guards of mutexes, which only those mutexes reach. A pooled directory is made when it is
first used, in the size that is in force at that moment, and keeps that size.
-/

namespace LockElision

/-- Which directory of a pair. -/
inductive Backing where
  | bounded
  | pooled
  deriving DecidableEq, Repr

structure Shelf where
  bounded : SlotTable tableCapacity
  pooled : Option PooledDirectory

namespace Shelf

def fresh : Shelf := ⟨SlotTable.empty tableCapacity, none⟩

/-- The pooled directory, made now if this is its first use. -/
def openPooled (make : PooledDirectory) (shelf : Shelf) : PooledDirectory :=
  shelf.pooled.getD make

/-- Uses one directory of the pair; `make` is what a pooled one starts as. -/
def use {α : Type} (make : PooledDirectory) (backing : Backing)
    (f : {D : Type} → [Inspectable D] → D → α × D) (shelf : Shelf) : α × Shelf :=
  match backing with
  | .bounded =>
    let (a, d) := f shelf.bounded
    (a, { shelf with bounded := d })
  | .pooled =>
    let (a, d) := f (shelf.openPooled make)
    (a, { shelf with pooled := some d })

end Shelf

end LockElision
