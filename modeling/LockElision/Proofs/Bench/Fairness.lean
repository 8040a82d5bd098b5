import LockElision.Proofs.Bench.Refusal
import LockElision.Proofs.Bench.Shares

/-!
# Fair shares

The timed operations of a plan are split among its threads without a remainder and as evenly as
whole numbers allow (`Plan.Fair`). No worker of a crew reports more than its share, whether it is
let through the gate or turned back (`Crew.Modest`), so whatever the workers do, the running total
of the supervisor stays below the number planned, and adding one more report never wraps around.
-/

namespace LockElision

theorem Shift.le_share_of_result {shift : Shift} {started : Bool} {n : UInt64}
    (h : shift.result started = .ok n) : n.toNat ≤ shift.share.toNat := by
  unfold Shift.result at h
  cases hwarmup : shift.warmup.result with
  | error => rw [hwarmup] at h; cases h
  | ok =>
    rw [hwarmup] at h
    cases started with
    | false => cases h; exact Nat.zero_le _
    | true =>
      cases htimed : shift.timed.result with
      | error => rw [htimed] at h; cases h
      | ok => rw [htimed] at h; cases h; exact Nat.le_refl _

namespace Crew

variable {c c' : Crew} {ix : Nat} {stage : WorkerStage}

/-- All together have no more to report than was given out. -/
structure Modest (c : Crew) : Prop where
  reports : ∀ ix n, c.workers ix = .finished (.ok n) → n.toNat ≤ (c.shifts ix).share.toNat
  total : ∀ ix total failure, c.supervisor = .collecting ix total failure →
    total.toNat ≤ ∑ jx ∈ Finset.range ix, (c.shifts jx).share.toNat

namespace Modest

theorem initial (size : Nat) (shifts : Nat → Shift) : (initial size shifts).Modest :=
  ⟨fun _ _ h => WorkerStage.noConfusion h, fun _ _ _ h => SupervisorStage.noConfusion h⟩

theorem supervise (h : c.Modest) (hshifts : c'.shifts = c.shifts)
    (hworkers : c'.workers = c.workers)
    (hnot : ∀ ix total failure, c'.supervisor ≠ .collecting ix total failure) : c'.Modest := by
  refine ⟨?_, fun ix total failure hs => absurd hs (hnot ix total failure)⟩
  rw [hshifts, hworkers]
  exact h.reports

theorem work (h : c.Modest)
    (hstage : ∀ n, stage = .finished (.ok n) → n.toNat ≤ (c.shifts ix).share.toNat) :
    (c.setWorker ix stage).Modest :=
  ⟨forall_setWorker (P := fun jx stage => ∀ n, stage = .finished (.ok n) →
    n.toNat ≤ (c.shifts jx).share.toNat) hstage fun jx _ => h.reports jx, h.total⟩

theorem collect {total total' : UInt64} {failure failure' : Option RunFault}
    {result : Except Interruption UInt64} (h : c.Modest)
    (hs : c.supervisor = .collecting ix total failure) (hw : c.workers ix = .finished result)
    (hcollect : c.collect ix total failure result =
      { c with supervisor := .collecting (ix + 1) total' failure' }) :
    ({ c with supervisor := .collecting (ix + 1) total' failure' } : Crew).Modest := by
  have hbefore := h.total ix total failure hs
  refine ⟨h.reports, fun jx sum fault hsum => ?_⟩
  obtain ⟨rfl, rfl, rfl⟩ := SupervisorStage.collecting.inj hsum
  have hsupervisor := congrArg Crew.supervisor hcollect
  show _ ≤ ∑ jx ∈ Finset.range (ix + 1), (c.shifts jx).share.toNat
  rw [Finset.sum_range_succ]
  cases result with
  | ok n =>
    obtain ⟨-, rfl, -⟩ := SupervisorStage.collecting.inj hsupervisor
    have hreport := h.reports ix n hw
    -- reduced modulo 2 ^ 64 a sum only gets smaller
    have hwrap := Nat.mod_le (total.toNat + n.toNat) (2 ^ 64)
    rw [UInt64.toNat_add]
    omega
  | error interruption =>
    obtain ⟨-, rfl, -⟩ := SupervisorStage.collecting.inj hsupervisor
    omega

theorem turn {move : Move} (h : c.Modest) (ht : c.Turn move c') : c'.Modest := by
  cases ht with
  | @hire ix hs hix =>
    have hset : (c.setWorker ix (.warmingUp (c.shifts ix).warmup.steps)).Modest := h.work nofun
    exact hset.supervise rfl rfl nofun
  | allHired | notReady | allReady | noneFinished | oneFinished | abort | conclude | giveUp
  | refuse => exact h.supervise rfl rfl nofun
  | openGate hs =>
    refine ⟨h.reports, fun ix total failure hs => ?_⟩
    obtain ⟨rfl, rfl, rfl⟩ := SupervisorStage.collecting.inj hs
    exact Nat.zero_le _
  | collect hs hix hw hcollect => exact h.collect hs hw hcollect
  | @call ix stage step left lock inside hstage hw =>
    have hset : (c.setWorker ix (stage left)).Modest := by cases hstage <;> exact h.work nofun
    exact ⟨hset.reports, hset.total⟩
  | breakOff => exact h.work nofun
  | @arrive ix hw =>
    have hset : (c.setWorker ix .atGate).Modest := h.work nofun
    exact ⟨hset.reports, hset.total⟩
  | wait => exact h
  | begin => exact h.work nofun
  | giveBack | finish =>
    refine h.work fun n hn => ?_
    exact Shift.le_share_of_result (WorkerStage.finished.inj hn)

theorem play {size : Nat} {shifts : Nat → Shift} {moves : List Move}
    (h : (Crew.initial size shifts).play moves = some c) : c.Modest :=
  play_keeps (P := Modest) (fun _ _ _ _ hc ht => hc.turn ht) (initial size shifts) h

end Modest

/-- The next report can be added to the running total in 64 bits, and the total then is at most
`bound`. -/
def AddsUpTo (c : Crew) (bound : Nat) : Prop :=
  ∀ ix total failure n, c.supervisor = .collecting ix total failure → ix < c.size →
    c.workers ix = .finished (.ok n) →
    total.toNat + n.toNat ≤ bound ∧ (total + n).toNat = total.toNat + n.toNat

end Crew

namespace Plan

/-- The timed operations are split fairly. -/
structure Fair (p : Plan) : Prop where
  /-- No share wraps around. -/
  exact : ∀ t, (p.share t).toNat = p.iterations.toNat / p.threads.toNat +
    if t.toNat < p.iterations.toNat % p.threads.toNat then 1 else 0
  whole : ∑ t ∈ Finset.range p.threads.toNat, (p.share (UInt64.ofNat t)).toNat =
    p.iterations.toNat
  /-- Nor does the sum of all shares, added up one by one in 64 bits. -/
  added : addUp 0 0 (((List.range p.threads.toNat).map fun t =>
    p.share (UInt64.ofNat t)).map .ok) = .ok p.iterations
  falling : ∀ s t, s ≤ t → p.share t ≤ p.share s
  even : ∀ s t, (p.share s).toNat ≤ (p.share t).toNat + 1
  first : 1 ≤ p.iterations → 1 ≤ p.share 0

theorem fair {p : Plan} (hp : p.threads ≠ 0) : p.Fair where
  exact := toNat_share hp
  whole := sum_share hp
  added := addUp_shares hp
  falling _ _ := share_antitone hp
  even := share_le_succ hp
  first hone := by
    have hiterations : p.iterations ≠ 0 := by
      rintro hzero
      rw [hzero] at hone
      exact absurd hone (by decide)
    exact UInt64.le_iff_toNat_le.mpr (share_zero_pos hp hiterations)

theorem crew_addsUpTo {p : Plan} (hp : p.threads ≠ 0) {site : Site} {moves : List Move} {c : Crew}
    (h : (p.crew site).play moves = some c) : c.AddsUpTo p.iterations.toNat := by
  intro ix total failure n hs hix hw
  have hm := (Crew.play_gated h).1
  have hmodest := Crew.Modest.play h
  have htotal := hmodest.total ix total failure hs
  have hreport := hmodest.reports ix n hw
  have hle := sum_share_le hp (j := ix + 1) (hm.size ▸ hix)
  have hlt := p.iterations.toNat_lt
  simp only [hm.shifts, share_shift] at htotal hreport
  rw [Finset.sum_range_succ] at hle
  have hbound : total.toNat + n.toNat ≤ p.iterations.toNat := by omega
  refine ⟨hbound, ?_⟩
  rw [UInt64.toNat_add, Nat.mod_eq_of_lt (by omega)]

/-- **The timed operations are split fairly** among any number of threads, and whatever becomes of
the workers, the running total of their reports never wraps around. -/
theorem split_fairly {p : Plan} (hp : p.threads ≠ 0) : p.Fair ∧
    ∀ site moves c, (p.crew site).play moves = some c → c.AddsUpTo p.iterations.toNat :=
  ⟨fair hp, fun _ _ _ => crew_addsUpTo hp⟩

/-- One operation less than there are threads, of which there are as many as can be. -/
theorem split_fairly_crowded :
    let p : Plan := { standard 0xffffffffffffffff with iterations := 0xfffffffffffffffe }
    p.threads ≠ 0 ∧ p.share 0 = 1 ∧ p.share 0xfffffffffffffffe = 0 ∧
      ∑ t ∈ Finset.range p.threads.toNat, (p.share (UInt64.ofNat t)).toNat = 2 ^ 64 - 2 := by
  intro p
  have hp : p.threads ≠ 0 := by decide
  obtain ⟨hfair, -⟩ := split_fairly hp
  refine ⟨hp, by decide, by decide, hfair.whole⟩

end Plan

end LockElision
