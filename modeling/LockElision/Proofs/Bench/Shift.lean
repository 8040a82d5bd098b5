import LockElision.Bench.Shift
import LockElision.Proofs.Bench.Route
import LockElision.Proofs.Directory.Pooled
import LockElision.Proofs.Directory.Slots

/-!
# What a worker does in its shift

Every operation of a plan has a route: the locks it is to enter, in order. From a ledger `m` it goes
up its route as far as it is let and comes all the way back, to `m`. So operations in a row are one
round after the other, until one is refused (`Plan.Works`), and a shift that begins with an empty
directory ends with one.
-/

namespace LockElision

/-- There is something to enter, and room to go as deep as an operation has to. -/
def Workload.Runnable : Workload → Prop
  | flat => True
  | nested depth => 0 < depth.toNat
  | hierarchical levels locksPerLevel depth =>
    0 < locksPerLevel.toNat ∧ depth.toNat ≤ levels.toNat

namespace Plan

/-- The locks that an operation is to enter. -/
def IsRoute (p : Plan) (locks : List BenchLock) : Prop :=
  match p.workload with
  | .flat => locks = [p.workload.lock p.mode]
  | .nested depth => locks = List.replicate depth.toNat (p.workload.lock p.mode)
  | .hierarchical levels locksPerLevel depth => ∃ start, start + depth.toNat ≤ levels.toNat ∧
    Stair locksPerLevel.toNat start depth.toNat locks

/-- How the locks of a plan are entered by a worker whose directory has this capacity. -/
def entry (address : BenchLock → LockId) (capacity : Option Nat) (p : Plan) : Entry :=
  if p.mode.isShielded then .shielded capacity address p.mode.reentrancy else .raw

/-- At most `count` operations in a row, each from the ledger `m` and back to it; the last one may
be refused. -/
inductive Works (p : Plan) (entry : Entry) (m : Ledger) : (count : Nat) → List RealStep →
    Option Fault → Prop where
  | rest : Works p entry m 0 [] none
  | on {count : Nat} {locks path : List BenchLock} {steps : List RealStep} {fault : Option Fault} :
      p.IsRoute locks → entry.ascent m locks = (path, none) → Works p entry m count steps fault →
      Works p entry m (count + 1) (round path ++ steps) fault
  | refused {count : Nat} {locks path : List BenchLock} {fault : Fault} :
      p.IsRoute locks → entry.ascent m locks = (path, some fault) →
      Works p entry m (count + 1) (round path) (some fault)

/-- The capacity of the workers' directories. -/
def capacity (p : Plan) : Option Nat :=
  match p.resolvedStrategy with
  | .pooled => none
  | _ => some tableCapacity

section Valid

variable {p : Plan} {mode : LockMode} {levels locksPerLevel depth : UInt64}

theorem validate_ok (h : p.validate = .ok ()) :
    p.threads ≠ 0 ∧ p.iterations ≠ 0 ∧ validateWorkload p.mode p.workload = .ok () := by
  rw [validate] at h
  split at h
  · cases h
  · split at h
    · cases h
    · exact ⟨‹_›, ‹_›, h⟩

theorem validateWorkload_nested (h : validateWorkload mode (.nested depth) = .ok ()) :
    depth ≠ 0 ∧ ¬ (1 < depth ∧ mode = .shieldedStrict) := by
  rw [validateWorkload] at h
  split at h
  · cases h
  · split at h
    · cases h
    · exact ⟨‹_›, ‹_›⟩

theorem validateWorkload_hierarchical
    (h : validateWorkload mode (.hierarchical levels locksPerLevel depth) = .ok ()) :
    locksPerLevel ≠ 0 ∧ depth ≠ 0 ∧ depth ≤ levels ∧ mode.isShared = false := by
  rw [validateWorkload] at h
  split at h
  · cases h
  · rename_i hempty
    split at h
    · cases h
    · rename_i hdepth
      split at h
      · cases h
      · exact ⟨fun he => hempty (.inr he), fun he => hdepth (.inl he),
          UInt64.not_lt.mp fun hlt => hdepth (.inr hlt), Bool.eq_false_of_not_eq_true ‹_›⟩

theorem runnable_of_workload (h : validateWorkload p.mode p.workload = .ok ()) :
    p.workload.Runnable := by
  cases hload : p.workload with
  | flat => trivial
  | nested depth =>
    rw [hload] at h
    exact Nat.pos_of_ne_zero fun he => (validateWorkload_nested h).1 (UInt64.toNat.inj he)
  | hierarchical levels locksPerLevel depth =>
    rw [hload] at h
    obtain ⟨hlocks, -, hdepth, -⟩ := validateWorkload_hierarchical h
    exact ⟨Nat.pos_of_ne_zero fun he => hlocks (UInt64.toNat.inj he), hdepth⟩

theorem runnable (h : p.validate = .ok ()) : p.workload.Runnable :=
  runnable_of_workload (validate_ok h).2.2

end Valid

variable {D : Type} [Directory D] [LawfulDirectory D] [ReversibleDirectory D]
  {capacity : Option Nat} {m : Ledger} {w : Worker D} {address : BenchLock → LockId} {p : Plan}
  {choices : Choices}

/-- How many nodes a worker has to make to really enter so many locks of a plan. -/
def toll (p : Plan) (d : D) (count : Nat) : Nat :=
  if p.mode.isShielded then RestoringDirectory.dry d count else 0

theorem access_lawful :
    (p.access address : Access D).Lawful capacity (p.entry address capacity) p.toll := by
  unfold access entry toll
  split
  · exact Access.shielded_lawful
  · exact Access.raw_lawful

/-- **An operation** goes up its route as far as it is let, and all the way back. -/
theorem operation_law (address : BenchLock → LockId) (choices : Choices)
    (hp : p.workload.Runnable) (hw : w.Has capacity m) :
    ∃ locks, p.IsRoute locks ∧
      let r := (p.entry address capacity).ascent m locks
      ∃ w', p.operation address choices w = w'.ended r.2 ∧
        w.Back w' (round r.1) (p.toll w.directory r.1.length) := by
  rw [operation]
  cases hload : p.workload with
  | flat =>
    refine ⟨_, by rw [IsRoute, hload], ?_⟩
    exact Operation.nest_law access_lawful _ 0 hw
  | nested depth =>
    rw [hload] at hp
    obtain ⟨more, hmore⟩ : ∃ more, depth.toNat = more + 1 :=
      ⟨depth.toNat - 1, by simp only [Workload.Runnable] at hp; omega⟩
    refine ⟨_, by rw [IsRoute, hload], ?_⟩
    simp only [hmore, Nat.add_sub_cancel]
    exact Operation.nest_law access_lawful _ more hw
  | hierarchical levels locksPerLevel depth =>
    rw [hload] at hp
    obtain ⟨start, locks, hstart, hstair, h⟩ :=
      Operation.walk_law access_lawful choices hp.1 hp.2 hw
    refine ⟨locks, ?_, h⟩
    rw [IsRoute, hload]
    exact ⟨start, hstart, hstair⟩

theorem times_law (address : BenchLock → LockId) (choices : Choices) (hp : p.workload.Runnable) :
    ∀ (count : Nat) {w : Worker D}, w.Has capacity m →
    ∃ steps fault w' made,
      Operation.times (p.operation address choices) count w = w'.ended fault ∧
      p.Works (p.entry address capacity) m count steps fault ∧ w.Back w' steps made := by
  intro count
  induction count with
  | zero => exact fun {w} _ => ⟨[], none, w, 0, rfl, .rest, .refl w⟩
  | succ count ih =>
    intro w hw
    obtain ⟨locks, hroute, w₁, hop, hback₁⟩ :=
      operation_law address choices hp hw
    rw [Operation.times, hop]
    generalize hr : (p.entry address capacity).ascent m locks = r at hop hback₁ ⊢
    obtain ⟨path, fault⟩ := r
    cases fault with
    | none =>
      obtain ⟨steps, fault, w₂, made, hrest, hworks, hback₂⟩ := ih (hw.back hback₁)
      exact ⟨_, fault, w₂, _, hrest, .on hroute hr hworks, hback₁.trans hback₂⟩
    | some fault => exact ⟨_, _, w₁, _, rfl, .refused hroute hr, hback₁⟩

end Plan

/-- The answer of operations that were refused, or were not. -/
def refusal : Option Fault → Except Interruption Unit
  | none => .ok ()
  | some fault => .error (.refused fault)

/-- Some operations in a row, from an empty directory and back to one. -/
structure Stretch.Lawful (stretch : Stretch) (p : Plan) (entry : Entry) (count : Nat)
    (fault : Option Fault) : Prop where
  works : p.Works entry ∅ count stretch.steps fault
  result : stretch.result = refusal fault
  holdings : stretch.holdings = []

/-- Whoever was refused while warming up does nothing more. -/
inductive Shift.Lawful (shift : Shift) (p : Plan) (entry : Entry) : Prop where
  | worked {fault : Option Fault} :
      shift.warmup.Lawful p entry p.warmup.toNat none →
      shift.timed.Lawful p entry shift.share.toNat fault → Lawful shift p entry
  | refused {fault : Fault} :
      shift.warmup.Lawful p entry p.warmup.toNat (some fault) →
      shift.timed = shift.warmup.skipped → Lawful shift p entry

open LawfulDirectory

variable {D : Type} [Directory D] [LawfulDirectory D] [ReversibleDirectory D]
  {capacity : Option Nat} {w : Worker D} {address : BenchLock → LockId} {p : Plan}
  {choices : Choices}

theorem Worker.Has.holdings (h : w.Has capacity ∅) : Directory.holdings w.directory = [] := by
  have hs := RestoringDirectory.sound h.fit
  have hsize := size_ledger hs
  rw [h.ledger, size_eq hs] at hsize
  exact List.length_eq_zero_iff.mp hsize

theorem Stretch.lawful_ofWorker {w w' : Worker D} {steps : List RealStep} {count made : Nat}
    {entry : Entry} {fault : Option Fault} (hw : w.Has capacity ∅) (hnew : w.steps = [])
    (hworks : p.Works entry ∅ count steps fault) (hback : w.Back w' steps made) :
    (Stretch.ofWorker w' (refusal fault)).Lawful p entry count fault := by
  refine ⟨?_, rfl, (hw.back hback).holdings⟩
  rw [Stretch.ofWorker, hback.steps, hnew, List.append_nil, List.reverse_reverse]
  exact hworks

theorem Shift.lawful_on (hp : p.workload.Runnable) {d : D} (hd : (Worker.start d).Has capacity ∅)
    (share : UInt64) : (Shift.on d (p.operation address choices) p.warmup share).Lawful p
      (p.entry address capacity) := by
  obtain ⟨steps, fault, w, made, hwarmup, hworks, hback⟩ :=
    Plan.times_law address choices hp p.warmup.toNat hd
  rw [Shift.on, hwarmup]
  have hfirst := Stretch.lawful_ofWorker hd rfl hworks hback
  cases fault with
  | some fault => exact .refused hfirst rfl
  | none =>
    have hw := hd.back hback
    have hnew : ({ w with steps := [], notices := [] } : Worker D).Has capacity ∅ :=
      ⟨hw.fit, hw.capacity, hw.ledger⟩
    obtain ⟨steps', fault', w', made', htimed, hworks', hback'⟩ :=
      Plan.times_law address choices hp share.toNat hnew
    have hsecond := Stretch.lawful_ofWorker hnew rfl hworks' hback'
    simp only [Worker.ended, htimed]
    cases fault' <;> exact .worked hfirst hsecond

/-- **A worker's shift**, whatever its choices. -/
theorem Plan.shift_lawful (hp : p.workload.Runnable) (site : Site) (worker : UInt64) :
    (p.shift site worker).Lawful p (p.entry site.address p.capacity) := by
  have hpooled : (Worker.start (site.sizing.directory site.hash)).Has none ∅ :=
    ⟨⟨(PooledDirectory.sound_create ..).1, PooledDirectory.stocked_create ..⟩, rfl,
      PooledDirectory.ledger_create ..⟩
  have hbounded : (Worker.start (SlotTable.empty tableCapacity)).Has (some tableCapacity) ∅ :=
    ⟨(SlotTable.sound_empty _).1, rfl, SlotTable.ledger_empty _⟩
  rw [Plan.shift, Plan.capacity]
  cases p.resolvedStrategy with
  | pooled => exact Shift.lawful_on hp hpooled _
  | auto | bounded => exact Shift.lawful_on hp hbounded _

end LockElision
