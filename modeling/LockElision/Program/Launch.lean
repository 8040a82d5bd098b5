import LockElision.Bench.Run
import LockElision.Config.Environment
import LockElision.Program.Arguments
import LockElision.Program.LogFilter
import LockElision.Wire.Bench

/-!
# Launches

The throughput driver from its arguments and its environment to its last word. The log is set up
first; then the arguments are read, then the environment; then the pool setting is installed, large
enough for the locks of a hierarchy; then the plan runs. The first of these to fail ends the
program.
-/

namespace LockElision

/-- A line of output. -/
inductive OutputLine where
  | header
  | row (report : Report)
  | json (report : Report)
  | version

/-- What the user is told of a failure: a sentence, and the code behind it. -/
structure Complaint where
  text : String
  code : Option String
  deriving DecidableEq, Repr

structure Ending where
  exitCode : UInt32
  output : List OutputLine
  complaint : Option Complaint
  log : List LogLine

/-- How the program logs. -/
structure Logging where
  filter : LogFilter
  /-- Whether each line is an object. -/
  structured : Bool

/-- A program that is ready to run its plan. -/
structure Launch where
  plan : Plan
  /-- The pool setting that was installed. -/
  sizing : PoolSizing
  format : ReportFormat
  header : Bool
  logging : Logging
  /-- The log so far. -/
  log : List LogLine

def OutputLine.text : OutputLine → String
  | header => Report.csvHeader
  | row report => report.csv
  | json report => Wire.write report
  | version => "lock-shield 0.1.0"

namespace Logging

/-- A filter that cannot be read counts as the standard one. -/
def ofEnvironment (env : Environment) : Logging where
  filter := ((env "RUST_LOG").value?.bind LogFilter.parse?).getD .standard
  structured :=
    match (env "SHIELD_TRACE_JSON").value? with
    | some value => value = "1" || value = "true"
    | none => false

def opening (l : Logging) : Event :=
  .message .tracing .info
    (if l.structured then "Structured tracing initialized with JSON output"
      else "Structured tracing initialized") []

end Logging

namespace Launch

/-- The sizing to install for a plan: a walk up a hierarchy should find a node for each lock. -/
def sizingFor (base : PoolSizing) : Workload → PoolSizing
  | .hierarchical _ _ depth => { base with poolSize := max base.poolSize depth }
  | _ => base

def configurationLoaded (p : Plan) (sizing : PoolSizing) : Event :=
  .message .commandLine .info "configuration loaded"
    [("config", .text p.inspect), ("pool", .text sizing.inspect),
      ("strategy", .text p.resolvedStrategy.inspect)]

/-- Everything up to the run. -/
def prepare (processors : UInt64) (env : Environment) (arguments : List String) :
    Except Ending Launch := do
  let logging := Logging.ofEnvironment env
  let opened := logging.filter.lines [logging.opening]
  let arguments ←
    match Arguments.read arguments with
    | .ok arguments => pure arguments
    | .error .misuse => throw ⟨2, [], none, opened⟩
    | .error .help => throw ⟨0, [], none, opened⟩
    | .error .version => throw ⟨0, [.version], none, opened⟩
  let settings ←
    match env.settings with
    | .ok settings => pure settings
    | .error fault =>
      throw ⟨1, [], some ⟨"reading SHIELD_* environment", some fault.toFault.code⟩, opened⟩
  let plan := arguments.plan processors settings.strategy
  let sizing := sizingFor settings.pool plan.workload
  match sizing.validate with
  | .ok _ => pure ()
  | .error fault =>
    -- Nothing was said around this failure, so its code stands for the sentence.
    throw ⟨1, [], some ⟨fault.toFault.code, some fault.toFault.code⟩, opened⟩
  return {
    plan := plan
    sizing := sizing
    format := arguments.given.format.getD .csv
    header := arguments.given.header
    logging := logging
    log := opened ++ logging.filter.lines [sizing.installed, configurationLoaded plan sizing] }

def output (l : Launch) (report : Report) : List OutputLine :=
  match l.format with
  | .csv => (if l.header then [.header] else []) ++ [.row report]
  | .json => [.json report]

/-- The code behind a run's fault, if it has one. -/
def codeOf : RunFault → Option String
  | .shield fault => some fault.code
  | _ => none

/-- The end of the program after a run that took so many seconds. -/
def finish (l : Launch) (record : RunRecord) (seconds : Float) : Ending :=
  let filter := l.logging.filter
  let told := filter.lines (record.opening ++ record.crew ++ record.closing)
  let log := l.log ++ told ++ (if record.opening.isEmpty then [] else filter.closeLine)
  match record.result with
  | .ok operations => ⟨0, l.output (Report.ofRun l.plan operations seconds), none, log⟩
  | .error fault => ⟨1, [], some ⟨"workload run failed", codeOf fault⟩, log⟩

def run (hash : LockId → UInt64) (processors : UInt64) (l : Launch) : RunRecord :=
  l.plan.run (l.plan.site hash l.sizing processors)

end Launch

/-- A whole program run, if the plan takes so many seconds. -/
def launch (hash : LockId → UInt64) (processors : UInt64) (seconds : Float) (env : Environment)
    (arguments : List String) : Ending :=
  match Launch.prepare processors env arguments with
  | .error ending => ending
  | .ok l => l.finish (l.run hash processors) seconds

end LockElision
