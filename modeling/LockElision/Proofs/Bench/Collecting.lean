import LockElision.Proofs.Bench.Gate
import LockElision.Proofs.Bench.Shares

/-!
# Collecting the results

When every worker can be started and none breaks off, the gate is never aborted, every worker
reports what its shift says, and the supervisor comes to the sum of these reports or to the first
failure among them, in whatever order the workers finish.
-/

namespace LockElision

theorem Shift.share_of_result {shift : Shift} {n : UInt64} (h : shift.result true = .ok n) :
    n = shift.share := by
  rw [Shift.result] at h
  cases hwarmup : shift.warmup.result with
  | error => rw [hwarmup] at h; cases h
  | ok =>
    cases htimed : shift.timed.result with
    | error => rw [hwarmup, htimed] at h; cases h
    | ok => rw [hwarmup, htimed] at h; cases h; rfl

namespace Crew

variable {c c' : Crew} {ix : Nat} {stage : WorkerStage}

/-- What the workers will report, when all are let through. -/
def results (c : Crew) : List (Except Interruption UInt64) :=
  (List.range c.size).map fun ix => (c.shifts ix).result true

/-- The supervisor took down the results of the first `ix` workers. -/
structure TakenDown (c : Crew) (ix : Nat) (total : UInt64) (failure : Option RunFault) : Prop where
  all : ix ≤ c.size
  finished : ∀ jx < ix, (c.workers jx).isFinished = true
  /-- The total never wraps around, since all shares together do not. -/
  bounded : total.toNat ≤ ∑ jx ∈ Finset.range ix, (c.shifts jx).share.toNat
  sum : Plan.addUp 0 0 c.results = match failure with
    | none => Plan.addUp (UInt64.ofNat ix) total (c.results.drop ix)
    | some fault => .error fault

/-- Where the supervisor is with the results. -/
def SumsUp (c : Crew) : Prop :=
  match c.supervisor with
  | .collecting ix total failure => c.TakenDown ix total failure
  | .giveUp _ => False
  | .done outcome => (∀ jx < c.size, (c.workers jx).isFinished = true) ∧
    Plan.addUp 0 0 c.results = outcome
  | _ => True

/-- A crew in which all goes well. -/
structure Smooth (c : Crew) : Prop where
  unbroken : ∀ ix, (c.shifts ix).warmup.broke = false
  gate : c.gate ≠ .aborted
  born : ∀ ix < c.hired, c.workers ix ≠ .unborn
  reports : ∀ ix result, c.workers ix = .finished result → result = (c.shifts ix).result true
  sumsUp : c.SumsUp

/-- The results taken down stay, whatever happens to the workers that have not finished. -/
theorem SumsUp.mono (h : c.SumsUp) (hsupervisor : c'.supervisor = c.supervisor)
    (hsize : c'.size = c.size) (hshifts : c'.shifts = c.shifts)
    (hfinished : ∀ ix, (c.workers ix).isFinished = true → (c'.workers ix).isFinished = true) :
    c'.SumsUp := by
  have hresults : c'.results = c.results := by rw [results, results, hsize, hshifts]
  unfold SumsUp at h ⊢
  rw [hsupervisor]
  split at h
  · refine ⟨hsize ▸ h.all, fun jx hjx => hfinished jx (h.finished jx hjx), ?_, ?_⟩
    · rw [hshifts]; exact h.bounded
    · rw [hresults]; exact h.sum
  · exact h
  · rw [hsize, hresults]
    exact ⟨fun jx hjx => hfinished jx (h.1 jx hjx), h.2⟩
  · trivial

theorem drop_results (hix : ix < c.size) :
    c.results.drop ix = (c.shifts ix).result true :: c.results.drop (ix + 1) := by
  have hlength : ix < c.results.length := by rwa [results, List.length_map, List.length_range]
  rw [List.drop_eq_getElem_cons hlength]
  congr 1
  simp [results]

namespace Smooth

theorem initial (size : Nat) {shifts : Nat → Shift} (h : ∀ ix, (shifts ix).warmup.broke = false) :
    (initial size shifts).Smooth :=
  ⟨h, show Gate.waiting ≠ .aborted by decide, fun _ h => absurd h (Nat.not_lt_zero _),
    fun _ _ h => WorkerStage.noConfusion h, trivial⟩

theorem not_broken (h : c.Smooth) : ¬ c.Broken := by
  rintro ⟨ix, -, hb⟩
  rw [brokeOff, h.unbroken, Bool.and_false] at hb
  cases hb

theorem supervise (h : c.Smooth) (hshifts : c'.shifts = c.shifts)
    (hworkers : c'.workers = c.workers) (hgate : c'.gate ≠ .aborted) (hhired : c'.hired ≤ c.hired)
    (hsums : c'.SumsUp) : c'.Smooth :=
  ⟨by rw [hshifts]; exact h.unbroken, hgate,
    fun ix hix => by rw [hworkers]; exact h.born ix (Nat.lt_of_lt_of_le hix hhired),
    by rw [hworkers, hshifts]; exact h.reports, hsums⟩

theorem work (h : c.Smooth) (hold : (c.workers ix).isFinished = false)
    (hstage : stage.isUnderWay = true ∨ stage = .finished ((c.shifts ix).result true)) :
    (c.setWorker ix stage).Smooth := by
  have hborn : stage ≠ .unborn := by
    rintro rfl
    exact hstage.elim Bool.false_ne_true fun h => WorkerStage.noConfusion h
  have hreport : ∀ result, stage = .finished result → result = (c.shifts ix).result true := by
    rintro result rfl
    exact hstage.elim (absurd · Bool.false_ne_true) WorkerStage.finished.inj
  refine ⟨h.unbroken, h.gate, forall_setWorker (P := fun jx stage => jx < c.hired → stage ≠ .unborn)
      (fun _ => hborn) fun jx _ => h.born jx,
    forall_setWorker (P := fun jx stage => ∀ result, stage = .finished result →
      result = (c.shifts jx).result true) hreport fun jx _ => h.reports jx,
    h.sumsUp.mono rfl rfl rfl (forall_setWorker
      (P := fun jx stage => (c.workers jx).isFinished = true → stage.isFinished = true)
      (fun hjx => ?_) fun _ _ => id)⟩
  rw [hold] at hjx
  cases hjx

theorem collect {total : UInt64} {failure : Option RunFault}
    {result : Except Interruption UInt64} (h : c.Smooth) (ht : c.TakenDown ix total failure)
    (hix : ix < c.size) (hw : c.workers ix = .finished result) :
    (c.collect ix total failure result).SumsUp := by
  have hreport := h.reports ix result hw
  have hfinished : ∀ jx < ix + 1, (c.workers jx).isFinished = true := fun jx hjx =>
    (Nat.lt_succ_iff_lt_or_eq.mp hjx).elim (ht.finished jx) fun he => by rw [he, hw]; rfl
  have hbounded := ht.bounded
  have hsum := ht.sum
  cases result with
  | ok n =>
    have hshare := Shift.share_of_result hreport.symm
    refine ⟨hix, hfinished, ?_, ?_⟩
    · show (total + n).toNat ≤ ∑ jx ∈ Finset.range (ix + 1), (c.shifts jx).share.toNat
      have hle := Nat.mod_le (total.toNat + n.toNat) (2 ^ 64)
      rw [Finset.sum_range_succ, ← hshare, UInt64.toNat_add]
      omega
    · cases failure with
      | some fault => exact hsum
      | none =>
        have hnext : UInt64.ofNat (ix + 1) = UInt64.ofNat ix + 1 := UInt64.ofNat_add ix 1
        rw [drop_results hix, ← hreport] at hsum
        exact hsum.trans (by rw [hnext]; rfl)
  | error interruption =>
    refine ⟨hix, hfinished, ?_, ?_⟩
    · exact Nat.le_trans hbounded
        (Finset.sum_le_sum_of_subset (Finset.range_mono (Nat.le_succ ix)))
    · cases failure with
      | some fault => exact hsum
      | none =>
        rw [drop_results hix, ← hreport] at hsum
        exact hsum

theorem conclude {total : UInt64} {failure : Option RunFault} :
    c.TakenDown ix total failure → c.size ≤ ix →
    ({ c with supervisor := .done (match failure with
      | some fault => .error fault
      | none => .ok total) } : Crew).SumsUp := by
  intro ht hix
  refine ⟨fun jx hjx => ht.finished jx (Nat.lt_of_lt_of_le hjx hix), ?_⟩
  have hsum := ht.sum
  cases failure with
  | some fault => exact hsum
  | none =>
    have hend : c.results.drop ix = [] := by
      rw [List.drop_eq_nil_iff, results, List.length_map, List.length_range]; exact hix
    rw [hend] at hsum
    exact hsum

/-- **One move** other than a refusal keeps the way to the sum. -/
theorem turn {size : Nat} {shifts : Nat → Shift} {move : Move} (hm : c.Manned size shifts)
    (hg : c.Gated) (h : c.Smooth) (hrefuse : ∀ reason, move ≠ .refuse reason)
    (ht : c.Turn move c') : c'.Smooth := by
  have hfits := hg.fits
  have hsums := h.sumsUp
  unfold GateFits at hfits
  unfold SumsUp at hsums
  cases ht with
  | @hire ix hs hix =>
    have hunborn : c.workers ix = .unborn := hm.unborn ix (by rw [Crew.hired, hs])
    have hset : (c.setWorker ix (.warmingUp (c.shifts ix).warmup.steps)).Smooth :=
      h.work (by rw [hunborn]; rfl) (.inl rfl)
    refine ⟨hset.unbroken, hset.gate, fun jx hjx => ?_, hset.reports, trivial⟩
    by_cases he : jx = ix
    · subst he
      show (c.setWorker jx _).workers jx ≠ _
      rw [workers_setWorker_self]
      exact fun h => WorkerStage.noConfusion h
    · refine hset.born jx ?_
      have hjx : jx < ix + 1 := hjx
      rw [hired_setWorker, Crew.hired, hs]
      show jx < ix
      omega
  | @allHired ix hs hix =>
    refine h.supervise rfl rfl h.gate ?_ trivial
    rw [Crew.hired, Crew.hired, hs]
    exact hix
  | notReady hs | noneFinished hs | allReady hs | oneFinished hs =>
    exact h.supervise rfl rfl h.gate (by rw [Crew.hired, Crew.hired, hs]) trivial
  | abort hs =>
    rw [hs] at hfits
    exact absurd hfits.2 h.not_broken
  | openGate hs =>
    have hopened : Gate.opened ≠ .aborted := by decide
    refine h.supervise rfl rfl hopened (by rw [Crew.hired, Crew.hired, hs]) ?_
    exact ⟨Nat.zero_le _, fun _ hjx => absurd hjx (Nat.not_lt_zero _), Nat.le_refl _, rfl⟩
  | collect hs hix hw hcollect =>
    rw [hs] at hsums
    have hnext := h.collect hsums hix hw
    exact h.supervise rfl rfl h.gate (by rw [Crew.hired, Crew.hired, hs]) (hcollect ▸ hnext)
  | conclude hs hix =>
    rw [hs] at hsums
    exact h.supervise rfl rfl h.gate (by rw [Crew.hired, Crew.hired, hs]) (conclude hsums hix)
  | giveUp hs =>
    rw [hs] at hsums
    exact hsums.elim
  | refuse reason => exact absurd rfl (hrefuse reason)
  | @call ix stage step left lock inside hstage hw =>
    have hset : (c.setWorker ix (stage left)).Smooth := by
      cases hstage <;> exact h.work (by rw [hw]; rfl) (.inl rfl)
    exact hset.supervise rfl rfl hset.gate (Nat.le_refl _)
      (hset.sumsUp.mono rfl rfl rfl fun _ => id)
  | @breakOff ix panic hw hbroken =>
    have hbroke := Stretch.broke_of_broken hbroken
    rw [h.unbroken] at hbroke
    cases hbroke
  | @arrive ix hw =>
    have hset : (c.setWorker ix .atGate).Smooth := h.work (by rw [hw]; rfl) (.inl rfl)
    exact hset.supervise rfl rfl hset.gate (Nat.le_refl _)
      (hset.sumsUp.mono rfl rfl rfl fun _ => id)
  | wait => exact h
  | begin hw => exact h.work (by rw [hw]; rfl) (.inl rfl)
  | @giveBack ix started hw hgate =>
    cases started with
    | true => exact h.work (by rw [hw]; rfl) (.inr rfl)
    | false => exact absurd hgate h.gate
  | finish hw => exact h.work (by rw [hw]; rfl) (.inr rfl)

end Smooth

end Crew

end LockElision
