import LockElision.Bench.Crew
import LockElision.Bench.Report
import LockElision.Bench.Span

/-!
# Runs

A throughput run of a plan: what it tells a listener, and how many operations were timed. The
workers' results are added up in their order, and the first failure in that order is the run's.
-/

namespace LockElision

/-- What a run told, the workers' own news apart, and how it ended. -/
structure RunRecord where
  opening : List Event
  crew : List Event
  closing : List Event
  /-- Timed operations, all workers together. -/
  result : Except RunFault UInt64

namespace Plan

def startingRun (p : Plan) : Event :=
  .message .runner .info "starting run"
    [("threads", .number p.threads.toNat), ("mode", .text p.mode.name),
      ("workload", .text p.workload.name), ("strategy", .text p.resolvedStrategy.inspect),
      ("iterations", .number p.iterations.toNat), ("warmup", .number p.warmup.toNat)]

/-- What a listener is told of a run that came to its end; measured times are left to the report. -/
def runFinished (total : UInt64) : Event :=
  .message .runner .info "run finished" [("total_operations", .number total.toNat)]

/-- What a worker tells of itself. -/
def workerNews (site : Site) (p : Plan) (worker : UInt64) (shift : Shift) : List Event :=
  let pinned := .message .runner .debug "pinned worker"
    [("worker", .number worker.toNat), ("cpu", .number (worker % site.processors).toNat)]
  (if p.pin then [pinned] else []) ++ shift.notices.map Exhaustion.event

/-- Adds up what the workers did, from `worker` on. -/
def addUp (worker total : UInt64) : List (Except Interruption UInt64) → Except RunFault UInt64
  | [] => .ok total
  | .ok n :: rest => addUp (worker + 1) (total + n) rest
  | .error interruption :: _ => .error (interruption.toRunFault worker)

/-- A plan with a fault is refused before anything is told. -/
def run (site : Site) (p : Plan) : RunRecord :=
  match p.validate with
  | .error fault => ⟨[], [], [], .error (.shield fault.toFault)⟩
  | .ok _ =>
    let span := RunSpan.start 0 p.workload.name p.threads
    let workers := (List.range p.threads.toNat).map UInt64.ofNat
    let shifts := workers.map (p.shift site)
    let result := addUp 0 0 (shifts.map (·.result true))
    let closing := match result with
      | .ok total => [RunSpan.recorded total.toNat, runFinished total, RunSpan.ended]
      | .error _ => [RunSpan.ended]
    { opening := span.opened ++ [p.startingRun]
      crew := (List.zipWith (p.workerNews site) workers shifts).flatten
      closing := closing
      result := result }

end Plan

/-- The report on a run that took so long. -/
def Report.ofRun (p : Plan) (operations : UInt64) (seconds : Float) : Report where
  threads := p.threads
  mode := p.mode
  workload := p.workload
  strategy := p.resolvedStrategy
  seconds := seconds
  operations := operations
  rate := if seconds > 0 then operations.toFloat / seconds else 0

end LockElision
