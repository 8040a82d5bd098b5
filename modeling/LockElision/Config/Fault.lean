import LockElision.Fault
import LockElision.Text.Unsigned

/-!
# Configuration faults

What can be wrong with a configuration, as causes; `message` words them.
-/

namespace LockElision

/-- The most nodes a pool may have, and the most buckets a directory. -/
def poolLimit : Nat := 65536

inductive ConfigFault where
  | poolTooLarge (size : Nat)
  | bucketsOutOfRange (count : Nat)
  /-- The text is shown as it was compared, in lower case. -/
  | unknownStrategy (text : String)
  | badNumber (name raw : String) (fault : NumberFault)
  | noThreads
  | noIterations
  | noNesting
  /-- A strict entry cannot repeat the entry around it. -/
  | strictNesting
  | emptyHierarchy
  | depthOutOfRange (levels depth : Nat)
  | sharedHierarchy
  deriving DecidableEq, Repr

namespace ConfigFault

def message : ConfigFault → String
  | poolTooLarge size => "pool_size " ++ toString size ++ " exceeds " ++ toString poolLimit
  | bucketsOutOfRange count =>
    "bucket_count must be in 1..=" ++ toString poolLimit ++ ", got " ++ toString count
  | unknownStrategy text =>
    "unknown strategy '" ++ text ++ "' (expected bounded, pooled or auto)"
  | badNumber name raw fault => name ++ "=" ++ raw ++ ": " ++ fault.message
  | noThreads => "threads must be at least 1"
  | noIterations => "iterations must be at least 1"
  | noNesting => "nesting depth must be at least 1"
  | strictNesting => "strict mode cannot nest the same lock; use shielded-reentrant"
  | emptyHierarchy => "hierarchy needs at least one level and one lock"
  | depthOutOfRange levels depth =>
    "depth must be in 1..=" ++ toString levels ++ ", got " ++ toString depth
  | sharedHierarchy => "shared modes run flat or nested workloads only"

def toFault (fault : ConfigFault) : Fault := .invalidConfig fault.message

end ConfigFault

end LockElision
