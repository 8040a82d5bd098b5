import LockElision.Json.Value

/-!
# Taking JSON values apart

What a JSON value is, if it is what is asked for: a number in a range, one of some names, the fields
of a record. A record is an object with every field once, in any order and among others, or the list
of its fields in order.
-/

namespace LockElision.Json

def text? : Json → Option String
  | string text => text
  | _ => none

def bool? : Json → Option Bool
  | bool b => some b
  | _ => none

/-- A whole number below `limit`. Neither a point nor a power of ten nor a minus sign may be used.
-/
def below? (limit : Nat) : Json → Option Nat
  | number ⟨false, whole, [], none⟩ =>
    let n := Numeral.ofDigits whole
    if n < limit then some n else none
  | _ => none

def word? (j : Json) : Option UInt64 := (j.below? UInt64.size).map UInt64.ofNat

def halfWord? (j : Json) : Option UInt32 := (j.below? UInt32.size).map UInt32.ofNat

/-- Any numeral in range; the quicker reading of it. -/
def double? : Json → Option Float
  | number n => n.scaled
  | _ => none

/-- The one value a key has among some members; `none` if it has none or several. -/
def only? (key : String) (members : List (Option String × Json)) : Option Json :=
  match members.filter (·.1 == some key) with
  | [(_, v)] => some v
  | _ => none

/-- Every key must have a text, even one that is not asked for. -/
def keysReadable (members : List (Option String × Json)) : Bool := members.all (·.1.isSome)

/-- The named fields of an object, in the order of the names. -/
def fieldsOfObject? (names : List String) (members : List (Option String × Json)) :
    Option (List Json) :=
  if keysReadable members then names.mapM (only? · members) else none

/-- The fields of a record, in order. -/
def fields? (names : List String) : Json → Option (List Json)
  | array items => if items.length = names.length then some items else none
  | object members => fieldsOfObject? names members
  | _ => none

/-- One of some names: the name itself, or an object with that name alone, for nothing. -/
def choice? {α : Type} (names : List (String × α)) : Json → Option α
  | string (some name) => names.lookup name
  | object [(some name, null)] => names.lookup name
  | _ => none

mutual

/-- How deep containers stand in each other. -/
def nesting : Json → Nat
  | array items => nestingOfItems items + 1
  | object members => nestingOfMembers members + 1
  | _ => 0

def nestingOfItems : List Json → Nat
  | [] => 0
  | item :: items => max (nesting item) (nestingOfItems items)

def nestingOfMembers : List (Option String × Json) → Nat
  | [] => 0
  | (_, v) :: members => max (nesting v) (nestingOfMembers members)

end

mutual

/-- Whether every string has a text and every numeral is in range. -/
def readable : Json → Bool
  | number n => n.scaled.isSome
  | string text => text.isSome
  | array items => readableItems items
  | object members => readableMembers members
  | _ => true

def readableItems : List Json → Bool
  | [] => true
  | item :: items => readable item && readableItems items

def readableMembers : List (Option String × Json) → Bool
  | [] => true
  | (key, v) :: members => key.isSome && readable v && readableMembers members

end

/-- The deepest nesting that can be kept for later. -/
def nestingLimit : Nat := 127

/-- Whether a value below `around` containers can be kept until it is known what it should be. A
value that is looked at once, or skipped, need not be. -/
def keepable (around : Nat) (j : Json) : Bool :=
  around + j.nesting ≤ nestingLimit && j.readable

end LockElision.Json
