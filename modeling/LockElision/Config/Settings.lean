import LockElision.Config.Sizing

/-!
# Settings

Which kind of directory a thread uses. `auto` decides by the number of locks the thread is expected
to have at once: what a slot table holds stays in a slot table.
-/

namespace LockElision

/-- The slots of a thread's table. -/
def tableCapacity : Nat := 4

inductive Strategy where
  | bounded
  | pooled
  | auto
  deriving DecidableEq, Repr

namespace Strategy

def name : Strategy → String
  | bounded => "bounded"
  | pooled => "pooled"
  | auto => "auto"

def inspect : Strategy → String
  | bounded => "Bounded"
  | pooled => "Pooled"
  | auto => "Auto"

/-- Either name of a strategy, in any mixture of ASCII cases. -/
def parse (text : String) : Except ConfigFault Strategy :=
  let lower := text.map Char.toLower
  if lower = "bounded" ∨ lower = "array" then .ok bounded
  else if lower = "pooled" ∨ lower = "hash" then .ok pooled
  else if lower = "auto" then .ok auto
  else .error (.unknownStrategy lower)

/-- Decides what `auto` leaves open, for a number of locks held at once. -/
def resolve (strategy : Strategy) (fanout : UInt64) : Strategy :=
  match strategy with
  | auto => if tableCapacity < fanout.toNat then pooled else bounded
  | chosen => chosen

end Strategy

structure Settings where
  strategy : Strategy
  expectedFanout : UInt64
  pool : PoolSizing
  deriving DecidableEq, Repr

namespace Settings

def standard : Settings := ⟨.auto, 1, .standard⟩

/-- For threads that nest a handful of locks. -/
def shallow : Settings := ⟨.bounded, 4, .standard⟩

/-- For deep hierarchies. -/
def deep : Settings := ⟨.pooled, 64, ⟨64, 64⟩⟩

def validate (s : Settings) : Except ConfigFault Unit := s.pool.validate

def inspect (s : Settings) : String :=
  Inspect.record "ShieldConfig"
    [("strategy", s.strategy.inspect), ("expected_fanout", toString s.expectedFanout.toNat),
      ("pool", s.pool.inspect)]

def select (s : Settings) : Strategy := s.strategy.resolve s.expectedFanout

end Settings

end LockElision
