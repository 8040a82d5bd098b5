import LockElision.Config.Sizing

/-!
# Events

What the library tells a listener while it works: messages with named values, spans that cover a
stretch of work, and values recorded on a span later.
-/

namespace LockElision

inductive Level where
  | trace
  | debug
  | info
  | warn
  | error
  deriving DecidableEq, Repr

namespace Level

def name : Level → String
  | trace => "TRACE"
  | debug => "DEBUG"
  | info => "INFO"
  | warn => "WARN"
  | error => "ERROR"

/-- How much a level matters; a listener asks for everything from some rank on. -/
def rank : Level → Nat
  | trace => 1
  | debug => 2
  | info => 3
  | warn => 4
  | error => 5

end Level

/-- Which part of the program speaks. -/
inductive Speaker where
  | commandLine
  | tracing
  | poolSetting
  | pooledDirectory
  | runner
  deriving DecidableEq, Repr

inductive EventValue where
  | number (n : Nat)
  | text (s : String)
  deriving DecidableEq, Repr

abbrev EventFields := List (String × EventValue)

inductive Event where
  | message (speaker : Speaker) (level : Level) (text : String) (fields : EventFields)
  | span (name : String) (fields : EventFields)
  | record (fields : EventFields)
  deriving DecidableEq, Repr

def Exhaustion.event (e : Exhaustion) : Event :=
  .message .pooledDirectory .trace "lock directory pool exhausted, allocating dynamic node"
    [("pool_size", .number e.poolSize), ("live", .number e.live)]

def PoolSizing.installed (s : PoolSizing) : Event :=
  .message .poolSetting .debug "installed lock directory pool configuration"
    [("pool_size", .number s.poolSize.toNat), ("bucket_count", .number s.bucketCount.toNat)]

end LockElision
