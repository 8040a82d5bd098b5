import LockElision.Proofs.Bench.Collecting
import LockElision.Proofs.Bench.Waiting

/-!
# Coming to an end

What a crew still has to do has a weight. Every move makes it lighter, except those with which a
thread only looks whether it may go on (`Turn.lighter`). As long as a crew in which all goes well is
not done, some thread has such a move (`Smooth.goes_on`), so the run can always be ended.
-/

namespace LockElision

def WorkerStage.weight (shift : Shift) : WorkerStage → Nat
  | unborn => shift.warmup.steps.length + shift.timed.steps.length + 4
  | warmingUp left => left.length + shift.timed.steps.length + 3
  | atGate => shift.timed.steps.length + 2
  | timing left => left.length + 1
  | finished _ => 0

def SupervisorStage.weight (size : Nat) : SupervisorStage → Nat
  | starting _ | checking => size + 5
  | counting | aborting => size + 4
  | opening => size + 3
  | collecting ix _ _ => size - ix + 1
  | giveUp _ => 1
  | done _ => 0

namespace Crew

variable {c c' : Crew} {ix : Nat} {stage : WorkerStage} {size : Nat} {shifts : Nat → Shift}
  {move : Move}

/-- What is left to do. -/
def weight (c : Crew) : Nat :=
  c.supervisor.weight c.size + ∑ ix ∈ Finset.range c.size, (c.workers ix).weight (c.shifts ix)

/-- A thread looks whether it may go on, and it may not. -/
inductive LooksAgain (c : Crew) : Move → Prop where
  | supervisor : c.supervisor = .counting → c.ready < c.size → LooksAgain c .supervisor
  | worker {ix : Nat} : c.workers ix = .atGate → c.gate = .waiting → LooksAgain c (.worker ix)

theorem weight_setWorker (hix : ix < c.size)
    (h : stage.weight (c.shifts ix) < (c.workers ix).weight (c.shifts ix)) :
    (c.setWorker ix stage).weight < c.weight := by
  refine Nat.add_lt_add_left (Finset.sum_lt_sum (fun jx _ => ?_)
    ⟨ix, Finset.mem_range.mpr hix, ?_⟩) _
  · exact forall_setWorker
      (P := fun jx stage => stage.weight (c.shifts jx) ≤ (c.workers jx).weight (c.shifts jx))
      (Nat.le_of_lt h) (fun _ _ => Nat.le_refl _) jx
  · show ((c.setWorker ix stage).workers ix).weight (c.shifts ix) < _
    rwa [workers_setWorker_self]

theorem weight_supervise (hsize : c'.size = c.size) (hshifts : c'.shifts = c.shifts)
    (hworkers : c'.workers = c.workers)
    (h : c'.supervisor.weight c.size < c.supervisor.weight c.size) : c'.weight < c.weight := by
  rw [weight, weight, hsize, hshifts, hworkers]
  exact Nat.add_lt_add_right h _

theorem Turn.lighter (hm : c.Manned size shifts) (ht : c.Turn move c')
    (hlooks : ¬ c.LooksAgain move) : c'.weight < c.weight := by
  cases ht with
  | @hire ix hs hix =>
    have hunborn : c.workers ix = .unborn := hm.unborn ix (by rw [Crew.hired, hs])
    have hlighter : (c.setWorker ix (.warmingUp (c.shifts ix).warmup.steps)).weight < c.weight :=
      weight_setWorker hix (by rw [hunborn, WorkerStage.weight, WorkerStage.weight]; omega)
    have hsame : SupervisorStage.weight c.size (.starting (ix + 1)) =
        c.supervisor.weight c.size := by rw [hs]; rfl
    refine Nat.lt_of_le_of_lt (Nat.le_of_eq ?_) hlighter
    exact congrArg (· + _) hsame
  | allHired hs | allReady hs | noneFinished hs | oneFinished hs | abort hs | openGate hs
  | collect hs | conclude hs | giveUp hs | refuse reason hs =>
    exact weight_supervise rfl rfl rfl (by rw [hs]; simp only [SupervisorStage.weight]; omega)
  | notReady hs hready => exact absurd (.supervisor hs hready) hlooks
  | @call ix stage step left lock inside hstage hw =>
    refine weight_setWorker (c := c.setOccupancy lock inside)
      (hm.below (by cases hstage <;> (rw [hw]; rfl))) ?_
    show (stage left).weight (c.shifts ix) < (c.workers ix).weight (c.shifts ix)
    rw [hw]
    cases hstage <;> (simp only [WorkerStage.weight, List.length_cons]; omega)
  | @arrive ix hw =>
    have hlighter : (c.setWorker ix .atGate).weight < c.weight :=
      weight_setWorker (hm.below (by rw [hw]; rfl))
        (by rw [hw]; simp only [WorkerStage.weight]; omega)
    exact hlighter
  | wait hw hgate => exact absurd (.worker hw hgate) hlooks
  | breakOff hw | begin hw | giveBack hw | finish hw =>
    exact weight_setWorker (hm.below (by rw [hw]; rfl))
      (by rw [hw]; simp only [WorkerStage.weight]; omega)

/-- Some thread has a move with which it does not only look again. -/
def GoesOn (c : Crew) : Prop :=
  ∃ move c', (∀ reason, move ≠ .refuse reason) ∧ ¬ c.LooksAgain move ∧ c.step move = some c'

theorem GoesOn.supervisor (h : c.stepSupervisor = some c')
    (hready : c.supervisor ≠ .counting ∨ c.size ≤ c.ready) : c.GoesOn := by
  refine ⟨.supervisor, c', fun _ he => Move.noConfusion he, fun hlooks => ?_, h⟩
  cases hlooks with
  | supervisor hs hlt => exact hready.elim (absurd hs) (absurd hlt ∘ Nat.not_lt_of_le)

theorem GoesOn.worker (h : c.stepWorker ix = some c')
    (hgate : c.workers ix ≠ .atGate ∨ c.gate ≠ .waiting) : c.GoesOn := by
  refine ⟨.worker ix, c', fun _ he => Move.noConfusion he, fun hlooks => ?_, h⟩
  cases hlooks with
  | worker hw hwaiting => exact hgate.elim (absurd hw) (absurd hwaiting)

theorem Ordered.goes_on {held : Nat → List BenchLock} (ho : c.Ordered held)
    (hm : c.Manned size shifts) (hwork : (c.workers ix).isWorking = true) : c.GoesOn := by
  obtain ⟨jx, c', hjx, hstep⟩ := ho.progress hm hwork
  exact .worker hstep (.inl fun hw => by rw [hw] at hjx; cases hjx)

/-- Once all have been started and nobody is at work any more, all have come to the gate. -/
theorem Smooth.complete (h : c.Smooth) (hhired : c.hired = c.size)
    (hidle : ∀ ix, (c.workers ix).isWorking = false) : c.Complete := by
  intro ix hix
  have hborn := h.born ix (hhired ▸ hix)
  have hnot := hidle ix
  rw [arrived, h.unbroken, Bool.not_false, Bool.and_true]
  cases hw : c.workers ix with
  | unborn => exact absurd hw hborn
  | warmingUp => rw [hw] at hnot; cases hnot
  | atGate | timing | finished => rfl

/-- **Somebody goes on** until all is done. -/
theorem Smooth.goes_on {held : Nat → List BenchLock} (h : c.Smooth) (hm : c.Manned size shifts)
    (hg : c.Gated) (ho : c.Ordered held) (hdone : ∀ outcome, c.supervisor ≠ .done outcome) :
    c.GoesOn := by
  have hfits := hg.fits
  have hsums := h.sumsUp
  unfold GateFits at hfits
  unfold SumsUp at hsums
  cases hs : c.supervisor with
  | starting ix =>
    by_cases hix : ix < c.size
    · exact .supervisor (by rw [stepSupervisor, hs]; exact if_pos hix) (.inl (by simp [hs]))
    · exact .supervisor (by rw [stepSupervisor, hs]; exact if_neg hix) (.inl (by simp [hs]))
  | counting =>
    by_cases hwork : ∃ ix, (c.workers ix).isWorking = true
    · obtain ⟨ix, hix⟩ := hwork
      exact ho.goes_on hm hix
    · have hidle : ∀ ix, (c.workers ix).isWorking = false := fun ix =>
        Bool.eq_false_of_not_eq_true fun hix => hwork ⟨ix, hix⟩
      have hcomplete := h.complete (by rw [Crew.hired, hs]) hidle
      have hready : c.ready = c.size := hg.ready.trans (c.complete_iff.mp hcomplete)
      exact .supervisor (by rw [stepSupervisor, hs]) (.inr (Nat.le_of_eq hready.symm))
  | checking | aborting | opening =>
    exact .supervisor (by rw [stepSupervisor, hs]) (.inl (by simp [hs]))
  | collecting ix total failure =>
    rw [hs] at hfits
    by_cases hix : ix < c.size
    · have hborn := h.born ix (by rw [Crew.hired, hs]; exact hix)
      cases hw : c.workers ix with
      | unborn => exact absurd hw hborn
      | warmingUp | timing =>
        have hwork : (c.workers ix).isWorking = true := by rw [hw]; rfl
        exact ho.goes_on hm hwork
      | atGate =>
        have hstep : c.stepWorker ix = some (c.goOn ix true) := by rw [stepWorker, hw, hfits.1]
        exact .worker hstep (.inr (by rw [hfits.1]; decide))
      | finished result =>
        have hstep : c.stepSupervisor = some (c.collect ix total failure result) := by
          simp only [stepSupervisor, hs, if_pos hix, hw]
        exact .supervisor hstep (.inl (by simp [hs]))
    · exact .supervisor (by rw [stepSupervisor, hs]; exact if_neg hix) (.inl (by simp [hs]))
  | giveUp =>
    rw [hs] at hsums
    exact hsums.elim
  | done outcome => exact absurd hs (hdone outcome)

/-! ## A run in which all goes well -/

/-- Nobody deadlocks, nobody breaks off, and the results are being added up. -/
structure Going (c : Crew) (size : Nat) (shifts : Nat → Shift) : Prop where
  manned : c.Manned size shifts
  gated : c.Gated
  smooth : c.Smooth
  ordered : ∃ held, c.Ordered held

section

variable (horderly : ∀ ix, Orderly [] (shifts ix).warmup.steps ∧ Orderly [] (shifts ix).timed.steps)
include horderly

theorem Going.turn (h : c.Going size shifts) (hrefuse : ∀ reason, move ≠ .refuse reason)
    (ht : c.Turn move c') : c'.Going size shifts :=
  let ⟨_, ho⟩ := h.ordered
  ⟨h.manned.turn ht, h.gated.turn h.manned ht, h.smooth.turn h.manned h.gated hrefuse ht,
    ho.turn h.manned horderly ht⟩

theorem Going.play {moves : List Move} (h : c.Going size shifts)
    (hstarted : ∀ reason, .refuse reason ∉ moves) (hplay : c.play moves = some c') :
    c'.Going size shifts :=
  play_keeps (P := fun c => c.Going size shifts)
    (fun _ hmem _ _ h ht => h.turn horderly (fun reason he => hstarted reason (he ▸ hmem)) ht)
    h hplay

/-- **The run can be ended** from any point on. -/
theorem Going.ends (h : c.Going size shifts) : ∃ moves c' outcome,
    (∀ reason, .refuse reason ∉ moves) ∧ c.play moves = some c' ∧
      c'.supervisor = .done outcome := by
  induction hweight : c.weight using Nat.strong_induction_on generalizing c with
  | _ weight ih =>
    by_cases hdone : ∃ outcome, c.supervisor = .done outcome
    · obtain ⟨outcome, hs⟩ := hdone
      exact ⟨[], c, outcome, fun _ => List.not_mem_nil, rfl, hs⟩
    · obtain ⟨held, ho⟩ := h.ordered
      obtain ⟨move, c₁, hrefuse, hlooks, hstep⟩ :=
        h.smooth.goes_on h.manned h.gated ho fun outcome hs => hdone ⟨outcome, hs⟩
      have ht := step_turn hstep
      have hlighter := ht.lighter h.manned hlooks
      obtain ⟨moves, c', outcome, hmoves, hplay, hs⟩ :=
        ih c₁.weight (hweight ▸ hlighter) (h.turn horderly hrefuse ht) rfl
      refine ⟨move :: moves, c', outcome, fun reason hmem => ?_, ?_, hs⟩
      · exact (List.mem_cons.mp hmem).elim (fun he => hrefuse reason he.symm) (hmoves reason)
      · rw [Crew.play, List.foldlM_cons, hstep]
        exact hplay

end

end Crew

end LockElision
