import LockElision.Fault
import LockElision.Wire.Locks

/-!
# JSON form of faults

A fault is written as a tag, `error_type`, and its `details`, which a fault without any leaves out.
The two may come in either order, among other members, or as a list of two. Details that come before
the tag have to be kept until it is known what they should be, so they may not be too deep.
-/

namespace LockElision.Fault

def tag : Fault → String
  | unbalancedLock _ => "unbalanced_lock"
  | unbalancedUnlock _ => "unbalanced_unlock"
  | capacityExceeded _ _ => "capacity_exceeded"
  | poolAlreadyInstalled => "pool_config_already_installed"
  | invalidConfig _ => "invalid_config"

def writeDetails : Fault → Option String
  | unbalancedLock lock | unbalancedUnlock lock => some (Wire.write lock)
  | capacityExceeded lock capacity =>
    some (Wire.writeNumbers [("lock", lock.raw.toNat), ("capacity", capacity)])
  | poolAlreadyInstalled => none
  | invalidConfig text => some (Json.compactString text)

def write (fault : Fault) : String :=
  Json.compactObject
    (("error_type", Json.compactString fault.tag)
      :: fault.writeDetails.toList.map fun details => ("details", details))

/-- The details of a full directory are an object; a list will not do. -/
def fullOfDetails? : Json → Option Fault
  | .object members => do
    let [lock, capacity] ← Json.fieldsOfObject? ["lock", "capacity"] members | none
    return capacityExceeded (← Wire.read? lock) (← capacity.word?).toNat
  | _ => none

/-- By tag, what the details of a fault say, if there are any. -/
def readers : List (String × (Option Json → Option Fault)) :=
  [("unbalanced_lock", fun details => (details.bind Wire.read?).map unbalancedLock),
    ("unbalanced_unlock", fun details => (details.bind Wire.read?).map unbalancedUnlock),
    ("capacity_exceeded", fun details => details.bind fullOfDetails?),
    ("pool_config_already_installed", fun
      | none | some .null => some poolAlreadyInstalled
      | _ => none),
    ("invalid_config", fun details => (details.bind Json.text?).map invalidConfig)]

def ofParts? (tag : Json) (details : Option Json) : Option Fault :=
  (Json.choice? readers tag).bind fun reader => reader details

/-- The members that matter, in the order in which they come. -/
def ofMembers? (members : List (Option String × Json)) : Option Fault :=
  match members.filter fun (key, _) => key == some "error_type" || key == some "details" with
  | [(some "error_type", tag)] => ofParts? tag none
  | [(some "error_type", tag), (some "details", details)] => ofParts? tag (some details)
  | [(some "details", details), (some "error_type", tag)] =>
    if details.keepable 1 then ofParts? tag (some details) else none
  | _ => none

def read? : Json → Option Fault
  | .object members => if Json.keysReadable members then ofMembers? members else none
  | .array [tag, details] => ofParts? tag (some details)
  | _ => none

instance : Wire Fault := ⟨write, read?⟩

end LockElision.Fault
