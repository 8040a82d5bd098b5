import LockElision.Bench.Plan

/-!
# Arguments

The command line of the throughput driver: options, the workload, options again. An option stands
alone or with a value, `--name value`, `--name=value`, or `-n value`, `-nvalue`, `-n=value`. What
begins with a minus sign is never a value of its own. An option may be given once before the
workload and once after it, and counts where it stands last; those of one workload only come after
it.
-/

namespace LockElision

inductive ReportFormat where
  | csv
  | json
  deriving DecidableEq, Repr

inductive WorkloadKind where
  | flat
  | nested
  | hierarchical
  deriving DecidableEq, Repr

inductive CommandOption where
  | threads
  | iterations
  | warmup
  | work
  | mode
  | strategy
  | pin
  | seed
  | format
  | header
  | depth
  | levels
  | locksPerLevel
  | help
  | version
  deriving DecidableEq, Repr

/-- What the options at one place say. -/
structure Given where
  threads : Option UInt64 := none
  iterations : Option UInt64 := none
  warmup : Option UInt64 := none
  work : Option UInt32 := none
  mode : Option LockMode := none
  strategy : Option Strategy := none
  pin : Bool := false
  seed : Option UInt64 := none
  format : Option ReportFormat := none
  header : Bool := false
  depth : Option UInt64 := none
  levels : Option UInt64 := none
  locksPerLevel : Option UInt64 := none
  deriving DecidableEq, Repr

/-- Why reading ends early. -/
inductive Refusal where
  | misuse
  /-- Help was asked for. -/
  | help
  | version
  deriving DecidableEq, Repr

/-- A command line that was understood. -/
structure Arguments where
  kind : WorkloadKind
  given : Given
  deriving DecidableEq, Repr

def ReportFormat.name : ReportFormat → String
  | csv => "csv"
  | json => "json"

namespace WorkloadKind

def name : WorkloadKind → String
  | flat => "flat"
  | nested => "nested"
  | hierarchical => "hierarchical"

def all : List WorkloadKind := [flat, nested, hierarchical]

def ofName? (text : String) : Option WorkloadKind := all.find? (·.name = text)

end WorkloadKind

namespace CommandOption

def name : CommandOption → String
  | threads => "threads"
  | iterations => "iterations"
  | warmup => "warmup"
  | work => "work"
  | mode => "mode"
  | strategy => "strategy"
  | pin => "pin"
  | seed => "seed"
  | format => "format"
  | header => "header"
  | depth => "depth"
  | levels => "levels"
  | locksPerLevel => "locks-per-level"
  | help => "help"
  | version => "version"

def letter? : CommandOption → Option Char
  | threads => some 't'
  | iterations => some 'i'
  | work => some 'w'
  | mode => some 'm'
  | strategy => some 's'
  | help => some 'h'
  | version => some 'V'
  | _ => none

def takesValue : CommandOption → Bool
  | pin | header | help | version => false
  | _ => true

/-- Options that may stand anywhere. -/
def everywhere : List CommandOption :=
  [threads, iterations, warmup, work, mode, strategy, pin, seed, format, header, help]

def beforeWorkload : List CommandOption := version :: everywhere

def afterWorkload : WorkloadKind → List CommandOption
  | .flat => everywhere
  | .nested => depth :: everywhere
  | .hierarchical => depth :: levels :: locksPerLevel :: everywhere

end CommandOption

namespace Arguments

def word? (text : String) : Option UInt64 :=
  match Unsigned.parse UInt64.size text.toList with
  | .ok n => some (UInt64.ofNat n)
  | .error _ => none

/-- A number of 32 bits, which may have a minus sign if it is zero. -/
def halfWord? (text : String) : Option UInt32 :=
  let read (limit : Nat) (cs : List Char) : Option UInt32 :=
    match Unsigned.parse limit cs with
    | .ok n => some (UInt32.ofNat n)
    | .error _ => none
  match text.toList with
  | '-' :: '+' :: _ => none
  | '-' :: cs => read 1 cs
  | cs => read UInt32.size cs

/-- The name of a mode as an option, with hyphens. -/
def modeName (mode : LockMode) : String := mode.name.map fun c => if c = '_' then '-' else c

def mode? (text : String) : Option LockMode := LockMode.all.find? (modeName · = text)

def strategy? (text : String) : Option Strategy :=
  [Strategy.bounded, .pooled, .auto].find? (·.name = text)

def format? (text : String) : Option ReportFormat :=
  [ReportFormat.csv, .json].find? (·.name = text)

/-- Takes down an option that has a value; `none` if it was given before or has no such value. -/
def record (option : CommandOption) (value : String) (g : Given) : Option Given :=
  let once {α : Type} (before read : Option α) : Option (Option α) :=
    match before, read with
    | none, some a => some (some a)
    | _, _ => none
  match option with
  | .threads => (once g.threads (word? value)).map fun a => { g with threads := a }
  | .iterations => (once g.iterations (word? value)).map fun a => { g with iterations := a }
  | .warmup => (once g.warmup (word? value)).map fun a => { g with warmup := a }
  | .work => (once g.work (halfWord? value)).map fun a => { g with work := a }
  | .mode => (once g.mode (mode? value)).map fun a => { g with mode := a }
  | .strategy => (once g.strategy (strategy? value)).map fun a => { g with strategy := a }
  | .seed => (once g.seed (word? value)).map fun a => { g with seed := a }
  | .format => (once g.format (format? value)).map fun a => { g with format := a }
  | .depth => (once g.depth (word? value)).map fun a => { g with depth := a }
  | .levels => (once g.levels (word? value)).map fun a => { g with levels := a }
  | .locksPerLevel =>
    (once g.locksPerLevel (word? value)).map fun a => { g with locksPerLevel := a }
  | _ => none

/-- Takes down an option that stands alone. -/
def mark (option : CommandOption) (g : Given) : Except Refusal Given :=
  match option with
  | .help => .error .help
  | .version => .error .version
  | .pin => if g.pin then .error .misuse else .ok { g with pin := true }
  | .header => if g.header then .error .misuse else .ok { g with header := true }
  | _ => .error .misuse

/-- The option an argument names, and the value attached to it. -/
def named? (allowed : List CommandOption) (argument : List Char) :
    Option (CommandOption × Option String) :=
  match argument with
  | '-' :: '-' :: cs =>
    let name := String.ofList (cs.takeWhile (· != '='))
    let attached := match cs.dropWhile (· != '=') with
      | [] => none
      | _ :: value => some (String.ofList value)
    (allowed.find? (·.name = name)).map fun option => (option, attached)
  | '-' :: letter :: cs =>
    let attached := match cs with
      | [] => none
      | '=' :: value => some (String.ofList value)
      | value => some (String.ofList value)
    (allowed.find? (·.letter? = some letter)).map fun option =>
      (option, if option.takesValue then attached else none)
  | _ => none

/-- Reads options until there are no more arguments, or one is no option; answers those left.
`open?` is an option whose value comes next. -/
def options (allowed : List CommandOption) (open? : Option CommandOption) :
    List String → Given → Except Refusal (Given × List String)
  | [], g => if open?.isNone then .ok (g, []) else .error .misuse
  | argument :: rest, g =>
    let recorded (option : CommandOption) (value : String) : Except Refusal Given :=
      match record option value g with
      | some g => .ok g
      | none => .error .misuse
    match open? with
    | some option => do
      if argument.startsWith "-" then throw .misuse
      options allowed none rest (← recorded option argument)
    | none =>
      if argument = "--" then
        if rest.isEmpty then .ok (g, []) else .error .misuse
      else if argument = "-" ∨ ¬argument.startsWith "-" then .ok (g, argument :: rest)
      else
        match named? allowed argument.toList with
        | none => .error .misuse
        | some (option, attached) =>
          match option.takesValue, attached with
          | true, none => options allowed (some option) rest g
          | true, some value => do options allowed none rest (← recorded option value)
          | false, none => do options allowed none rest (← mark option g)
          | false, some _ => .error .misuse

/-- What counts if both places say something. -/
def combine (before after : Given) : Given where
  threads := after.threads.or before.threads
  iterations := after.iterations.or before.iterations
  warmup := after.warmup.or before.warmup
  work := after.work.or before.work
  mode := after.mode.or before.mode
  strategy := after.strategy.or before.strategy
  pin := before.pin || after.pin
  seed := after.seed.or before.seed
  format := after.format.or before.format
  header := before.header || after.header
  depth := after.depth
  levels := after.levels
  locksPerLevel := after.locksPerLevel

/-- The words after `help` name a workload, or nothing. -/
def helpOn (words : List String) : Refusal :=
  match words with
  | [] => .help
  | [word] => if word = "help" ∨ (WorkloadKind.ofName? word).isSome then .help else .misuse
  | _ => .misuse

/-- Reads a whole command line. -/
def read (arguments : List String) : Except Refusal Arguments := do
  let (before, rest) ← options CommandOption.beforeWorkload none arguments {}
  match rest with
  | "help" :: words => .error (helpOn words)
  | word :: rest =>
    match WorkloadKind.ofName? word with
    | none => .error .misuse
    | some kind =>
      let (after, rest) ← options (CommandOption.afterWorkload kind) none rest {}
      if rest.isEmpty then return ⟨kind, combine before after⟩ else .error .misuse
  | [] => .error .misuse

def workload (a : Arguments) : Workload :=
  match a.kind with
  | .flat => .flat
  | .nested => .nested (a.given.depth.getD 4)
  | .hierarchical =>
    .hierarchical (a.given.levels.getD 40) (a.given.locksPerLevel.getD 50) (a.given.depth.getD 10)

/-- The plan that the arguments ask for, on so many processors; `strategy` counts if they name
none. -/
def plan (processors : UInt64) (strategy : Strategy) (a : Arguments) : Plan :=
  let base := Plan.standard processors
  let g := a.given
  { threads := g.threads.getD base.threads
    iterations := g.iterations.getD base.iterations
    warmup := g.warmup.getD base.warmup
    work := g.work.getD base.work
    mode := g.mode.getD base.mode
    workload := a.workload
    strategy := g.strategy.getD strategy
    pin := g.pin
    seed := g.seed.getD base.seed }

end Arguments

end LockElision
