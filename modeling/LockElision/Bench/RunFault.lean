import LockElision.Fault

/-!
# Run faults

Why a throughput run has no report: a fault of the shield or of the plan, a thread that could not be
started, or one that broke off.
-/

namespace LockElision

inductive RunFault where
  | shield (fault : Fault)
  /-- The thread could not be started, for a reason the system gives. -/
  | notStarted (thread : UInt64) (reason : String)
  | panicked (thread : UInt64)
  deriving DecidableEq, Repr

namespace RunFault

def message : RunFault → String
  | shield fault => fault.message
  | notStarted thread reason =>
    "Failed to spawn worker " ++ toString thread.toNat ++ ": " ++ reason
  | panicked thread => "Worker " ++ toString thread.toNat ++ " panicked"

/-- What lies behind the fault, if it is more than the fault itself. -/
def source? : RunFault → Option String
  | notStarted _ reason => some reason
  | _ => none

def inspect : RunFault → String
  | shield fault => Inspect.tuple "Shield" [fault.inspect]
  | notStarted thread reason =>
    Inspect.record "Spawn"
      [("thread", toString thread.toNat),
        ("source", Inspect.record "Custom" [("kind", "Other"), ("error", Inspect.quoted reason)])]
  | panicked thread => Inspect.record "WorkerPanicked" [("thread", toString thread.toNat)]

end RunFault

end LockElision
