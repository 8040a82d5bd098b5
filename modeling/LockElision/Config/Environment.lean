import LockElision.Config.Settings
import LockElision.Text.Blank

/-!
# Settings from the environment

Three variables override the standard settings. They are read in a fixed order, the strategy first,
then the pool size, then the buckets; the sizes are checked last.
-/

namespace LockElision

inductive Variable where
  | unset
  /-- Set to bytes that are no UTF-8. -/
  | undecodable
  | text (value : String)
  deriving DecidableEq, Repr

/-- The text of a variable; what cannot be decoded counts as unset. -/
def Variable.value? : Variable → Option String
  | text value => some value
  | _ => none

def Variable.ofBytes (bytes : ByteArray) : Variable :=
  match String.fromUTF8? bytes with
  | some value => text value
  | none => undecodable

abbrev Environment := String → Variable

namespace Environment

/-- A variable that holds a 64-bit number, with white space around it. -/
def number? (env : Environment) (name : String) : Except ConfigFault (Option UInt64) :=
  match (env name).value? with
  | none => .ok none
  | some raw =>
    match Unsigned.parse UInt64.size (trimBlank raw.toList) with
    | .ok n => .ok (some (UInt64.ofNat n))
    | .error fault => .error (.badNumber name raw fault)

def strategy? (env : Environment) : Except ConfigFault (Option Strategy) :=
  match (env "SHIELD_STRATEGY").value? with
  | none => .ok none
  | some text => (Strategy.parse text).map some

def settings (env : Environment) : Except ConfigFault Settings := do
  let strategy ← env.strategy?
  let poolSize ← env.number? "SHIELD_POOL_SIZE"
  let buckets ← env.number? "SHIELD_BUCKETS"
  let base := Settings.standard
  let settings : Settings :=
    { base with
      strategy := strategy.getD base.strategy
      pool := ⟨poolSize.getD base.pool.poolSize, buckets.getD base.pool.bucketCount⟩ }
  settings.validate
  return settings

end Environment

end LockElision
