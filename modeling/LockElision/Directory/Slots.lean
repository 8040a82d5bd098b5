import LockElision.Directory.Basic

/-!
# Slot tables

A fixed number of slots, filled from the front and searched in order. A lock leaves by moving the
last holding into its place, so the filled slots stay together at the front and every slot behind
them is vacant.
-/

namespace LockElision

structure SlotTable (capacity : Nat) where
  slots : Vector Holding capacity
  size : Nat
  deriving DecidableEq, Repr

namespace SlotTable

variable {n : Nat}

def empty (n : Nat) : SlotTable n := ⟨Vector.replicate n Holding.vacant, 0⟩

/-- The filled slots, in slot order. -/
def holdings (t : SlotTable n) : List Holding := t.slots.toList.take t.size

/-- Where a lock is recorded. -/
def position? (t : SlotTable n) (lock : LockId) : Option Nat :=
  t.holdings.findIdx? (·.lock == lock)

def find? (t : SlotTable n) (lock : LockId) : Option Holding :=
  t.holdings.find? (·.lock == lock)

/-- The holding in slot `i`; a slot beyond the last reads as vacant. -/
def slot (t : SlotTable n) (i : Nat) : Holding := t.slots[i]?.getD Holding.vacant

def place (t : SlotTable n) (lock : LockId) : Placement (SlotTable n) :=
  if t.size = n then .full n
  else .placed ⟨t.slots.setIfInBounds t.size (Holding.first lock), t.size + 1⟩ none

def increment (t : SlotTable n) (lock : LockId) : Option (Nat × SlotTable n) :=
  (t.position? lock).map fun i =>
    let h := t.slot i
    (h.depth + 1, { t with slots := t.slots.setIfInBounds i { h with depth := h.depth + 1 } })

/-- Empties slot `i`: the last holding moves into it and leaves a vacant slot behind. -/
def vacate (t : SlotTable n) (i : Nat) : SlotTable n :=
  let last := t.size - 1
  ⟨(t.slots.setIfInBounds i (t.slot last)).setIfInBounds last Holding.vacant, last⟩

def remove (t : SlotTable n) (lock : LockId) : Option (Holding × SlotTable n) :=
  (t.position? lock).map fun i => (t.slot i, t.vacate i)

def decrement (t : SlotTable n) (lock : LockId) : Option (Nat × SlotTable n) :=
  (t.position? lock).map fun i =>
    let h := t.slot i
    if 1 < h.depth then
      (h.depth - 1, { t with slots := t.slots.setIfInBounds i { h with depth := h.depth - 1 } })
    else (0, t.vacate i)

instance : Directory (SlotTable n) where
  capacity _ := some n
  size := SlotTable.size
  holdings := holdings
  find? := find?
  place := place
  increment := increment
  decrement := decrement
  remove := remove
  clear _ := empty n

end SlotTable

end LockElision
