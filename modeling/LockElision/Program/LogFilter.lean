import LockElision.Event
import LockElision.Text.Blank

/-!
# Log filters

Which events reach the log. A filter is a list of rules, `level`, `target` or `target=level`; a
rule holds for every target that begins with its own, and the rule with the longest target decides.
Levels are named in any case or numbered, from 0 for none to 5 for all.
-/

namespace LockElision

/-- The target under which a part of the program logs. -/
def Speaker.target : Speaker → String
  | commandLine => "shield_bench"
  | tracing => "lock_shield::monitoring::tracer"
  | poolSetting => "lock_shield::shield::scope"
  | pooledDirectory => "lock_shield::shield::directory::pooled"
  | runner => "lock_shield::workload::driver"

structure LogRule where
  /-- The beginning of the targets that it holds for. -/
  target : String
  /-- The least level that is let through; `none` lets nothing through. -/
  least : Option Level
  deriving DecidableEq, Repr

namespace LogRule

/-- Ways to say a level. -/
def levelNames : List (String × Option Level) :=
  [("off", none), ("0", none), ("error", some .error), ("1", some .error), ("warn", some .warn),
    ("2", some .warn), ("info", some .info), ("3", some .info), ("debug", some .debug),
    ("4", some .debug), ("trace", some .trace), ("5", some .trace)]

def level? (text : String) : Option (Option Level) := levelNames.lookup (text.map Char.toLower)

def isTargetChar (c : Char) : Bool :=
  c.isAlphanum || c = '_' || c = ':' || c = '-' || 0x80 ≤ c.toNat

def target? (text : String) : Option String :=
  if text ≠ "" ∧ text.all isTargetChar then some text else none

/-- A target without a level lets everything through, with an empty one only errors. -/
def parse? (text : String) : Option LogRule :=
  let cs := trimBlank text.toList
  let head := String.ofList (cs.takeWhile (· != '='))
  match cs.dropWhile (· != '=') with
  | [] =>
    match level? head with
    | some least => some ⟨"", least⟩
    | none => (target? head).map fun target => ⟨target, some .trace⟩
  | _ :: tail => do
    let target ← target? head
    let least ← if tail.isEmpty then some (some Level.error) else level? (String.ofList tail)
    return ⟨target, least⟩

def lets (rule : LogRule) (level : Level) : Bool :=
  match rule.least with
  | some least => least.rank ≤ level.rank
  | none => false

end LogRule

abbrev LogFilter := List LogRule

namespace LogFilter

/-- What a program logs that was told nothing. -/
def standard : LogFilter := [⟨"", some .info⟩]

/-- A text without rules lets errors through. -/
def parse? (text : String) : Option LogFilter := do
  let rules ← ((text.splitOn ",").filter (· ≠ "")).mapM LogRule.parse?
  return if rules.isEmpty then [⟨"", some .error⟩] else rules

/-- The rule that decides about a target; of two for one target, the later. -/
def rule? (filter : LogFilter) (target : String) : Option LogRule :=
  (filter.filter fun rule => target.startsWith rule.target).foldl (fun best rule =>
    match best with
    | some chosen => if chosen.target.length ≤ rule.target.length then some rule else best
    | none => some rule) none

def lets (filter : LogFilter) (speaker : Speaker) (level : Level) : Bool :=
  (filter.rule? speaker.target).any (·.lets level)

end LogFilter

structure LogLine where
  level : Level
  text : String
  deriving DecidableEq, Repr

namespace LogFilter

/-- The line of an event. Spans and records have none. -/
def line? (filter : LogFilter) : Event → Option LogLine
  | .message speaker level text _ =>
    if filter.lets speaker level then some ⟨level, text⟩ else none
  | _ => none

def lines (filter : LogFilter) (events : List Event) : List LogLine := events.filterMap filter.line?

/-- The line about the end of a span, if the span was let through. -/
def closeLine (filter : LogFilter) : List LogLine :=
  if filter.lets .tracing .info then [⟨.info, "close"⟩] else []

end LogFilter

end LockElision
