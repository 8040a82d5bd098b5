import LockElision.Bench.Crew

/-!
# What a move does

`Crew.Turn c move c'` lists all that one move can do to a crew, with the conditions under which it
does it. Every move is one of these (`step_turn`), so what each of them keeps is kept by any moves
(`play_keeps`).
-/

namespace LockElision

/-- A worker that was started and has not finished. -/
def WorkerStage.isUnderWay : WorkerStage → Bool
  | unborn | finished _ => false
  | _ => true

namespace Crew

variable {c c' : Crew} {ix : Nat}

/-- The two kinds of stage in which a worker uses the locks. -/
inductive Working : (List RealStep → WorkerStage) → Prop where
  | warmingUp : Working .warmingUp
  | timing : Working .timing

inductive Turn (c : Crew) : Move → Crew → Prop where
  | hire {ix : Nat} : c.supervisor = .starting ix → ix < c.size →
      Turn c .supervisor { c.setWorker ix (.warmingUp (c.shifts ix).warmup.steps) with
        supervisor := .starting (ix + 1) }
  | allHired {ix : Nat} : c.supervisor = .starting ix → c.size ≤ ix →
      Turn c .supervisor { c with supervisor := .counting }
  | notReady : c.supervisor = .counting → c.ready < c.size →
      Turn c .supervisor { c with supervisor := .checking }
  | allReady : c.supervisor = .counting → c.size ≤ c.ready →
      Turn c .supervisor { c with supervisor := .opening }
  | noneFinished : c.supervisor = .checking → c.someFinished c.size = false →
      Turn c .supervisor { c with supervisor := .counting }
  | oneFinished : c.supervisor = .checking → c.someFinished c.size = true →
      Turn c .supervisor { c with supervisor := .aborting }
  | abort : c.supervisor = .aborting →
      Turn c .supervisor { c with gate := .aborted, supervisor := .opening }
  | openGate : c.supervisor = .opening →
      Turn c .supervisor { c with gate := .opened, supervisor := .collecting 0 0 none }
  | collect {ix : Nat} {total total' : UInt64} {failure failure' : Option RunFault}
      {result : Except Interruption UInt64} : c.supervisor = .collecting ix total failure →
      ix < c.size → c.workers ix = .finished result →
      c.collect ix total failure result =
        { c with supervisor := .collecting (ix + 1) total' failure' } →
      Turn c .supervisor { c with supervisor := .collecting (ix + 1) total' failure' }
  | conclude {ix : Nat} {total : UInt64} {failure : Option RunFault} :
      c.supervisor = .collecting ix total failure → c.size ≤ ix →
      Turn c .supervisor { c with supervisor := .done (match failure with
        | some fault => .error fault
        | none => .ok total) }
  | giveUp {fault : RunFault} : c.supervisor = .giveUp fault →
      Turn c .supervisor { c with supervisor := .done (.error fault) }
  | refuse {ix : Nat} (reason : String) : c.supervisor = .starting ix → ix < c.size →
      Turn c (.refuse reason) { c with
        gate := .aborted
        supervisor := .giveUp (.notStarted (UInt64.ofNat ix) reason) }
  | call {ix : Nat} {stage : List RealStep → WorkerStage} {step : RealStep} {left : List RealStep}
      {lock : BenchLock} {inside : Occupancy} : Working stage →
      c.workers ix = stage (step :: left) → c.call ix step = some (c.setOccupancy lock inside) →
      Turn c (.worker ix) ((c.setOccupancy lock inside).setWorker ix (stage left))
  | breakOff {ix : Nat} {panic : Panic} : c.workers ix = .warmingUp [] →
      (c.shifts ix).warmup.result = .error (.broken panic) →
      Turn c (.worker ix) (c.setWorker ix (.finished (.error (.broken panic))))
  | arrive {ix : Nat} : c.workers ix = .warmingUp [] →
      (∀ panic, (c.shifts ix).warmup.result ≠ .error (.broken panic)) →
      Turn c (.worker ix) { c.setWorker ix .atGate with ready := c.ready + 1 }
  | wait {ix : Nat} : c.workers ix = .atGate → c.gate = .waiting → Turn c (.worker ix) c
  | begin {ix : Nat} : c.workers ix = .atGate → c.gate = .opened →
      (c.shifts ix).warmup.result = .ok () →
      Turn c (.worker ix) (c.setWorker ix (.timing (c.shifts ix).timed.steps))
  /-- A worker that the gate turns back, or that was refused a lock before. -/
  | giveBack {ix : Nat} {started : Bool} : c.workers ix = .atGate →
      c.gate = (if started then .opened else .aborted) →
      Turn c (.worker ix) (c.setWorker ix (.finished ((c.shifts ix).result started)))
  | finish {ix : Nat} : c.workers ix = .timing [] →
      Turn c (.worker ix) (c.setWorker ix (.finished ((c.shifts ix).result true)))

/-! ## What the parts of a move come to -/

theorem call_eq {step : RealStep} (h : c.call ix step = some c') :
    ∃ lock inside, c' = c.setOccupancy lock inside := by
  cases step with
  | enter lock =>
    simp only [call] at h
    split at h
    · exact ⟨_, _, (Option.some.inj h).symm⟩
    · cases h
  | leave lock => exact ⟨_, _, (Option.some.inj h).symm⟩

theorem collect_eq (c : Crew) (ix : Nat) (total : UInt64) (failure : Option RunFault)
    (result : Except Interruption UInt64) : ∃ total' failure',
      c.collect ix total failure result =
        { c with supervisor := .collecting (ix + 1) total' failure' } := by
  cases result <;> exact ⟨_, _, rfl⟩

theorem call_turn {stage : List RealStep → WorkerStage} {step : RealStep} {left : List RealStep}
    (hstage : Working stage) (hw : c.workers ix = stage (step :: left))
    (h : (c.call ix step).map (·.setWorker ix (stage left)) = some c') :
    c.Turn (.worker ix) c' := by
  obtain ⟨c₁, hcall, rfl⟩ := Option.map_eq_some_iff.mp h
  obtain ⟨lock, inside, rfl⟩ := call_eq hcall
  exact .call hstage hw hcall

/-- At the end of its warm-up a worker comes to the gate, unless it broke off. -/
theorem arrive_turn (hw : c.workers ix = .warmingUp []) : c.Turn (.worker ix) (c.arrive ix) := by
  unfold arrive
  split
  · exact .breakOff hw ‹_›
  · exact .arrive hw ‹_›

/-- Behind the gate a worker starts its timed operations, unless it was not let through, or was
refused a lock before. -/
theorem goOn_turn {started : Bool} (hw : c.workers ix = .atGate)
    (hgate : c.gate = if started then .opened else .aborted) :
    c.Turn (.worker ix) (c.goOn ix started) := by
  unfold goOn
  split
  · exact .begin hw hgate ‹_›
  · exact .giveBack hw hgate

/-! ## Every move is a turn -/

theorem stepSupervisor_turn (h : c.stepSupervisor = some c') : c.Turn .supervisor c' := by
  rw [stepSupervisor] at h
  split at h
  case h_1 ix hs =>
    split at h
    · obtain rfl := Option.some.inj h; exact .hire hs ‹_›
    · obtain rfl := Option.some.inj h; exact .allHired hs (Nat.le_of_not_lt ‹_›)
  case h_2 hs =>
    obtain rfl := Option.some.inj h
    by_cases hready : c.ready < c.size
    · rw [if_pos hready]; exact .notReady hs hready
    · rw [if_neg hready]; exact .allReady hs (Nat.le_of_not_lt hready)
  case h_3 hs =>
    obtain rfl := Option.some.inj h
    cases hfinished : c.someFinished c.size with
    | true => exact .oneFinished hs hfinished
    | false => exact .noneFinished hs hfinished
  case h_4 hs => obtain rfl := Option.some.inj h; exact .abort hs
  case h_5 hs => obtain rfl := Option.some.inj h; exact .openGate hs
  case h_6 ix total failure hs =>
    split at h
    · cases hw : c.workers ix with
      | finished result =>
        rw [hw] at h
        obtain rfl := Option.some.inj h
        obtain ⟨total', failure', hcollect⟩ := c.collect_eq ix total failure result
        rw [hcollect]
        exact .collect hs ‹_› hw hcollect
      | _ => rw [hw] at h; cases h
    · obtain rfl := Option.some.inj h
      exact .conclude hs (Nat.le_of_not_lt ‹_›)
  case h_7 fault hs =>
    split at h
    · obtain rfl := Option.some.inj h; exact .giveUp hs
    · cases h
  case h_8 => cases h

theorem stepWorker_turn (h : c.stepWorker ix = some c') : c.Turn (.worker ix) c' := by
  rw [stepWorker] at h
  split at h
  case h_1 => cases h
  case h_2 => cases h
  case h_3 step left hw => exact call_turn .warmingUp hw h
  case h_4 hw => obtain rfl := Option.some.inj h; exact arrive_turn hw
  case h_5 hw =>
    cases hgate : c.gate with
    | waiting => rw [hgate] at h; obtain rfl := Option.some.inj h; exact .wait hw hgate
    | opened => rw [hgate] at h; obtain rfl := Option.some.inj h; exact goOn_turn hw hgate
    | aborted => rw [hgate] at h; obtain rfl := Option.some.inj h; exact goOn_turn hw hgate
  case h_6 step left hw => exact call_turn .timing hw h
  case h_7 hw => obtain rfl := Option.some.inj h; exact .finish hw

/-- **Every move is one of these.** -/
theorem step_turn {move : Move} (h : c.step move = some c') : c.Turn move c' := by
  cases move with
  | supervisor => exact stepSupervisor_turn h
  | worker ix => exact stepWorker_turn h
  | refuse reason =>
    rw [step, refuse] at h
    split at h
    case h_1 ix hs =>
      split at h
      · obtain rfl := Option.some.inj h; exact .refuse reason hs ‹_›
      · cases h
    case h_2 => cases h

/-- What each move keeps is kept by any moves. -/
theorem play_keeps {P : Crew → Prop} {moves : List Move}
    (hstep : ∀ move ∈ moves, ∀ c c', P c → c.Turn move c' → P c') :
    ∀ {c c' : Crew}, P c → c.play moves = some c' → P c' := by
  induction moves with
  | nil => rintro c _ hc ⟨⟩; exact hc
  | cons move moves ih =>
    intro c c' hc h
    rw [play, List.foldlM_cons] at h
    obtain ⟨c₁, hs, hrest⟩ := Option.bind_eq_some_iff.mp h
    exact ih (fun m hm => hstep m (List.mem_cons_of_mem _ hm))
      (hstep move List.mem_cons_self c c₁ hc (step_turn hs)) hrest

/-! ## Reading a crew after a change -/

variable {stage : WorkerStage} {lock : BenchLock} {inside : Occupancy}

@[simp] theorem workers_setWorker_self : (c.setWorker ix stage).workers ix = stage := if_pos rfl

theorem workers_setWorker_ne {jx : Nat} (h : jx ≠ ix) :
    (c.setWorker ix stage).workers jx = c.workers jx :=
  if_neg h

@[simp] theorem occupancy_setOccupancy_self :
    (c.setOccupancy lock inside).occupancy lock = inside :=
  if_pos rfl

theorem occupancy_setOccupancy_ne {other : BenchLock} (h : other ≠ lock) :
    (c.setOccupancy lock inside).occupancy other = c.occupancy other :=
  if_neg h

theorem forall_setWorker {P : Nat → WorkerStage → Prop} (hself : P ix stage)
    (hothers : ∀ jx, jx ≠ ix → P jx (c.workers jx)) (jx : Nat) :
    P jx ((c.setWorker ix stage).workers jx) := by
  by_cases he : jx = ix
  · rw [he, workers_setWorker_self]; exact hself
  · rw [workers_setWorker_ne he]; exact hothers jx he

/-! ## Who has been started -/

/-- How many workers were started already, or were to be. -/
def hired (c : Crew) : Nat :=
  match c.supervisor with
  | .starting ix => ix
  | _ => c.size

theorem hired_setWorker : (c.setWorker ix stage).hired = c.hired := rfl

/-- A crew of this size that works these shifts; whoever was not started yet does nothing. -/
structure Manned (c : Crew) (size : Nat) (shifts : Nat → Shift) : Prop where
  size : c.size = size
  shifts : c.shifts = shifts
  hired : c.hired ≤ c.size
  unborn : ∀ ix, c.hired ≤ ix → c.workers ix = .unborn

namespace Manned

variable {size : Nat} {shifts : Nat → Shift}

theorem initial (size : Nat) (shifts : Nat → Shift) : (initial size shifts).Manned size shifts :=
  ⟨rfl, rfl, Nat.zero_le _, fun _ _ => rfl⟩

theorem below (h : c.Manned size shifts) (hway : (c.workers ix).isUnderWay = true) :
    ix < c.size := by
  refine Nat.lt_of_not_le fun hout => ?_
  rw [h.unborn ix (Nat.le_trans h.hired hout)] at hway
  cases hway

theorem supervise (h : c.Manned size shifts) (hsize : c'.size = c.size)
    (hshifts : c'.shifts = c.shifts) (hworkers : c'.workers = c.workers)
    (hfrom : c.hired ≤ c'.hired) (hto : c'.hired ≤ c'.size) : c'.Manned size shifts :=
  ⟨hsize.trans h.size, hshifts.trans h.shifts, hto,
    fun ix hix => by rw [hworkers]; exact h.unborn ix (Nat.le_trans hfrom hix)⟩

theorem work (h : c.Manned size shifts) (hsize : c'.size = c.size) (hshifts : c'.shifts = c.shifts)
    (hsupervisor : c'.supervisor = c.supervisor) (hway : (c.workers ix).isUnderWay = true)
    (hworkers : ∀ jx, jx ≠ ix → c'.workers jx = c.workers jx) : c'.Manned size shifts := by
  have hhired : c'.hired = c.hired := by rw [Crew.hired, Crew.hired, hsupervisor, hsize]
  refine ⟨hsize.trans h.size, hshifts.trans h.shifts, ?_, fun jx hjx => ?_⟩
  · rw [hhired, hsize]; exact h.hired
  · rw [hhired] at hjx
    have hne : jx ≠ ix := by
      rintro rfl
      rw [h.unborn jx hjx] at hway
      cases hway
    rw [hworkers jx hne]
    exact h.unborn jx hjx

theorem turn {move : Move} (h : c.Manned size shifts) (ht : c.Turn move c') :
    c'.Manned size shifts := by
  have hle : c.hired ≤ c.size := h.hired
  have hrest : ∀ {c' : Crew}, c'.size = c.size → c'.shifts = c.shifts → c'.workers = c.workers →
      c'.hired = c'.size → c'.Manned size shifts := fun hsize hshifts hworkers hhired =>
    h.supervise hsize hshifts hworkers (by rw [hhired, hsize]; exact hle) (Nat.le_of_eq hhired)
  cases ht with
  | @hire ix hs hix =>
    have hhired : c.hired = ix := by rw [Crew.hired, hs]
    refine ⟨h.size, h.shifts, hix, fun jx hjx => ?_⟩
    have hjx : ix + 1 ≤ jx := hjx
    exact (workers_setWorker_ne (by omega)).trans (h.unborn jx (by omega))
  | allHired | notReady | allReady | noneFinished | oneFinished | abort | openGate | collect
  | conclude | giveUp | refuse => exact hrest rfl rfl rfl rfl
  | call hstage hw =>
    exact h.work rfl rfl rfl (by cases hstage <;> (rw [hw]; rfl)) fun _ => workers_setWorker_ne
  | wait => exact h
  | breakOff hw | arrive hw | begin hw | giveBack hw | finish hw =>
    exact h.work rfl rfl rfl (by rw [hw]; rfl) fun _ => workers_setWorker_ne

end Manned

end Crew

end LockElision
