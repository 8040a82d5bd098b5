import LockElision.Bench.Report
import LockElision.Wire.Settings

/-!
# JSON forms of plans and reports

A workload says its `kind` among its numbers, anywhere, so it is kept whole until the kind is known;
a list has the kind first.
-/

namespace LockElision

instance : Wire LockMode := .ofNames LockMode.all LockMode.name

namespace Workload

def ofNumbers? : String → List UInt64 → Option Workload
  | "flat", [] => some flat
  | "nested", [depth] => some (nested depth)
  | "hierarchical", [levels, locksPerLevel, depth] => some (hierarchical levels locksPerLevel depth)
  | _, _ => none

/-- The names of a workload's numbers, by its kind. -/
def fieldNames : List (String × List String) :=
  [flat, nested 0, hierarchical 0 0 0].map fun w => (w.name, w.fields.map Prod.fst)

def ofMembers? (members : List (Option String × Json)) : Option Workload := do
  let kind ← (← Json.only? "kind" members).text?
  let numbers ← (← fieldNames.lookup kind).mapM (Json.only? · members)
  ofNumbers? kind (← numbers.mapM Json.word?)

/-- Reads a workload that stands below `around` containers. -/
def ofJson? (around : Nat) (j : Json) : Option Workload :=
  if j.keepable around then
    match j with
    | .object members => ofMembers? members
    | .array (.string (some kind) :: items) => (items.mapM Json.word?).bind (ofNumbers? kind)
    | _ => none
  else none

instance : Wire Workload where
  write w := Json.compactObject
    (("kind", Json.compactString w.name)
      :: w.fields.map fun (name, n) => (name, Json.compactNat n.toNat))
  read? := ofJson? 0

end Workload

instance : Wire Plan where
  write p := Json.compactObject
    [("threads", Json.compactNat p.threads.toNat),
      ("iterations", Json.compactNat p.iterations.toNat),
      ("warmup_iterations", Json.compactNat p.warmup.toNat),
      ("work_amount", Json.compactNat p.work.toNat), ("mode", Wire.write p.mode),
      ("workload", Wire.write p.workload), ("strategy", Wire.write p.strategy),
      ("pin_threads", Json.compactBool p.pin), ("seed", Json.compactNat p.seed.toNat)]
  read? j := do
    let [threads, iterations, warmup, work, mode, workload, strategy, pin, seed] ←
      j.fields? ["threads", "iterations", "warmup_iterations", "work_amount", "mode", "workload",
        "strategy", "pin_threads", "seed"] | none
    return ⟨← threads.word?, ← iterations.word?, ← warmup.word?, ← work.halfWord?,
      ← Wire.read? mode, ← Workload.ofJson? 1 workload, ← Wire.read? strategy, ← pin.bool?,
      ← seed.word?⟩

instance : Wire Report where
  write r := Json.compactObject
    [("threads", Json.compactNat r.threads.toNat), ("mode", Wire.write r.mode),
      ("workload", Wire.write r.workload), ("strategy", Wire.write r.strategy),
      ("duration_secs", Json.compactDouble r.seconds),
      ("total_operations", Json.compactNat r.operations.toNat),
      ("ops_per_sec", Json.compactDouble r.rate)]
  read? j := do
    let [threads, mode, workload, strategy, seconds, operations, rate] ←
      j.fields? ["threads", "mode", "workload", "strategy", "duration_secs", "total_operations",
        "ops_per_sec"] | none
    return ⟨← threads.word?, ← Wire.read? mode, ← Workload.ofJson? 1 workload,
      ← Wire.read? strategy, ← seconds.double?, ← operations.word?, ← rate.double?⟩

end LockElision
