import LockElision.Process.Session

/-!
# Pool trials

Trying out the pool setting: install sizings, read the one in force, and fill pooled directories to
see which size they were made in. Thread 0 keeps its directory from step to step; every
`usageElsewhere` works on a thread of its own, which then ends.
-/

namespace LockElision

inductive PoolTrialStep where
  | sizing
  | install (sizing : PoolSizing)
  | usage (locks : Nat)
  | usageElsewhere (locks : Nat)
  deriving DecidableEq, Repr

namespace World

/-- Locks 0, 8, …, entered on a thread through its pooled directory; then how its nodes are used. -/
def fill (w : World) (t : ThreadIx) (locks : Nat) : Option Step := do
  let entered ← (List.range locks).foldlM (fun s k => do
    let next ← s.world.perform t (.acquire .pooled ⟨UInt64.ofNat (8 * k)⟩ .reentrant)
    some ⟨next.world, next.answer, s.events ++ next.events⟩) (⟨w, .pending, []⟩ : Step)
  let read ← entered.world.perform t .sharedUsage
  some { read with events := entered.events ++ read.events }

/-- One step of a trial, as thread 0 sees it: news on another thread does not reach it. -/
def poolTrial (w : World) (elsewhere : ThreadIx) : PoolTrialStep → Option Step
  | .sizing => w.perform 0 .sizing
  | .install sizing => w.perform 0 (.install sizing)
  | .usage locks => w.fill 0 locks
  | .usageElsewhere locks => do
    let s ← w.fill elsewhere locks
    let ended ← s.world.perform elsewhere .exit
    some ⟨ended.world, s.answer, []⟩

end World

/-- The steps of a trial in order, with what each answered and announced. -/
def playPoolTrial (w : World) : List PoolTrialStep → List (Answer × List Event)
  | [] => []
  | step :: rest =>
    match w.poolTrial (rest.length + 1) step with
    | some s => (s.answer, s.events) :: playPoolTrial s.world rest
    | none => []

end LockElision
