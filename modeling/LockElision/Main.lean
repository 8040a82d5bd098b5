import LockElision.Program.Launch

/-!
# The throughput driver

The program itself: arguments and environment in, a report, a log and an exit code out.
-/

namespace LockElision

/-- The variables that the program looks at. -/
def knownVariables : List String :=
  ["RUST_LOG", "SHIELD_TRACE_JSON", "SHIELD_STRATEGY", "SHIELD_POOL_SIZE", "SHIELD_BUCKETS"]

def readEnvironment : IO Environment := do
  let entries ← knownVariables.filterMapM fun name => do
    return (← IO.getEnv name).map fun value => (name, Variable.text value)
  return fun name => (entries.lookup name).getD .unset

def LogLine.shown (structured : Bool) (line : LogLine) : String :=
  if structured then
    Json.compactObject [("level", Json.compactString line.level.name),
      ("message", Json.compactString line.text)]
  else line.level.name ++ " " ++ line.text

/-- Prints what a program said, and answers its exit code. -/
def Ending.print (structured : Bool) (ending : Ending) : IO UInt32 := do
  for line in ending.log do IO.eprintln (line.shown structured)
  for line in ending.output do IO.println line.text
  if let some complaint := ending.complaint then
    IO.eprintln ("Error: " ++ complaint.text)
    if let some code := complaint.code then IO.eprintln ("  " ++ code)
  return ending.exitCode

end LockElision

open LockElision in
def main (arguments : List String) : IO UInt32 := do
  let env ← readEnvironment
  let structured := (Logging.ofEnvironment env).structured
  match Launch.prepare 1 env arguments with
  | .error ending => ending.print structured
  | .ok launch =>
    let before ← IO.monoNanosNow
    let record := launch.run LockId.scatter 1
    let operations := match record.result with
      | .ok operations => operations.toNat
      | .error _ => 0
    -- The clock is read again only once the number of operations is known.
    let after ← if operations = 0 then pure before else IO.monoNanosNow
    let seconds := (after - before).toFloat / 1000000000
    (launch.finish record seconds).print structured
