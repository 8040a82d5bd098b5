import LockElision.Json.Compact
import LockElision.Json.Decode

/-!
# JSON forms

A type with a JSON form says how a value is written and which JSON values are read as one. Reading
is the more generous side: it takes every form that `write` makes, and others.
-/

namespace LockElision

class Wire (α : Type) where
  write : α → String
  read? : Json → Option α

namespace Wire

variable {α : Type}

/-- The value a JSON text stands for. -/
def ofText? [Wire α] (text : String) : Option α := (Json.parse? text).bind read?

/-- Whether a value is still the same once written and read. -/
def survives [Wire α] [BEq α] (a : α) : Bool := ofText? (write a) == some a

/-- A type of a few values, known by their names. -/
@[reducible]
def ofNames (values : List α) (name : α → String) : Wire α where
  write a := Json.compactString (name a)
  read? := Json.choice? (values.map fun a => (name a, a))

/-- Members that are all numbers. -/
def writeNumbers (fields : List (String × Nat)) : String :=
  Json.compactObject (fields.map fun (name, n) => (name, Json.compactNat n))

end Wire

end LockElision
