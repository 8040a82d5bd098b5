import LockElision.Proofs.Bench.Turn
import Mathlib.Data.Finset.Card

/-!
# The start gate

A worker is let through the gate only when all workers have come to it, or when one of them broke
off before it came (`gate_lets_through`). That exception is real (`gate_lets_through_broken`): the
supervisor that misses a worker aborts the gate, and opens it right afterwards.
-/

namespace LockElision

/-- The warm-up is over, whether the worker came to the gate or broke off. -/
def WorkerStage.isWarm : WorkerStage → Bool
  | unborn | warmingUp _ => false
  | _ => true

/-- The worker has the gate behind it, or never came to it. -/
def WorkerStage.isBeyond : WorkerStage → Bool
  | timing _ | finished _ => true
  | _ => false

/-- It ended with a worker that broke off. -/
def Stretch.broke (stretch : Stretch) : Bool :=
  match stretch.result with
  | .error (.broken _) => true
  | _ => false

theorem Stretch.broke_of_broken {stretch : Stretch} {panic : Panic}
    (h : stretch.result = .error (.broken panic)) : stretch.broke = true := by
  rw [broke, h]

theorem Stretch.not_broke {stretch : Stretch}
    (h : ∀ panic, stretch.result ≠ .error (.broken panic)) : stretch.broke = false := by
  unfold broke
  split
  · exact absurd ‹_› (h _)
  · rfl

namespace Crew

variable {c c' : Crew} {ix : Nat}

/-- The worker came to the gate. -/
def arrived (c : Crew) (ix : Nat) : Bool := (c.workers ix).isWarm && !(c.shifts ix).warmup.broke

/-- The worker broke off in its warm-up, before it came to the gate. -/
def brokeOff (c : Crew) (ix : Nat) : Bool := (c.workers ix).isWarm && (c.shifts ix).warmup.broke

def arrivals (c : Crew) : Finset Nat := (Finset.range c.size).filter fun ix => c.arrived ix = true

/-- Every worker came to the gate. -/
def Complete (c : Crew) : Prop := ∀ ix < c.size, c.arrived ix = true

/-- Some worker never will. -/
def Broken (c : Crew) : Prop := ∃ ix < c.size, c.brokeOff ix = true

/-- How far the supervisor is tells how the gate stands, and why. -/
def GateFits (c : Crew) : Prop :=
  match c.supervisor with
  | .starting _ | .counting | .checking => c.gate = .waiting
  | .aborting => c.gate = .waiting ∧ c.Broken
  | .opening => c.gate = .waiting ∧ c.Complete ∨ c.gate = .aborted ∧ c.Broken
  | .collecting .. => c.gate = .opened ∧ (c.Complete ∨ c.Broken)
  | .giveUp _ => c.gate = .aborted
  | .done _ => c.gate = .aborted ∨ c.gate = .opened ∧ (c.Complete ∨ c.Broken)

structure Gated (c : Crew) : Prop where
  ready : c.ready = c.arrivals.card
  /-- Before the gate moves, nobody gets past it. -/
  early : c.gate = .waiting → ∀ ix, (c.workers ix).isBeyond = true → c.brokeOff ix = true
  fits : c.GateFits

theorem complete_iff (c : Crew) : c.Complete ↔ c.arrivals.card = c.size := by
  rw [Complete, arrivals]
  constructor
  · intro h
    rw [Finset.filter_true_of_mem fun ix hix => h ix (Finset.mem_range.mp hix), Finset.card_range]
  · intro h ix hix
    have hall := Finset.card_filter_eq_iff.mp (h.trans (Finset.card_range c.size).symm)
    exact hall ix (Finset.mem_range.mpr hix)

theorem GateFits.mono (h : c.GateFits) (hsupervisor : c'.supervisor = c.supervisor)
    (hgate : c'.gate = c.gate) (hcomplete : c.Complete → c'.Complete)
    (hbroken : c.Broken → c'.Broken) : c'.GateFits := by
  unfold GateFits at h ⊢
  rw [hsupervisor, hgate]
  split at h
  · exact h
  · exact h
  · exact h
  · exact h.imp id hbroken
  · exact h.imp (.imp id hcomplete) (.imp id hbroken)
  · exact h.imp id (.imp hcomplete hbroken)
  · exact h
  · exact h.imp id (.imp id (.imp hcomplete hbroken))

/-! ## Moves that nobody at the gate notices -/

/-- The same workers have their warm-up behind them. -/
structure SameWarm (c c' : Crew) : Prop where
  size : c'.size = c.size
  shifts : c'.shifts = c.shifts
  warm : ∀ ix, (c'.workers ix).isWarm = (c.workers ix).isWarm

namespace SameWarm

variable (h : SameWarm c c')
include h

theorem arrived (ix : Nat) : c'.arrived ix = c.arrived ix := by
  rw [Crew.arrived, Crew.arrived, h.warm, h.shifts]

theorem brokeOff (ix : Nat) : c'.brokeOff ix = c.brokeOff ix := by
  rw [Crew.brokeOff, Crew.brokeOff, h.warm, h.shifts]

theorem arrivals : c'.arrivals = c.arrivals := by
  rw [Crew.arrivals, Crew.arrivals, h.size]
  exact Finset.filter_congr fun ix _ => by rw [h.arrived]

theorem complete : c'.Complete ↔ c.Complete := by
  simp only [Complete, h.size, h.arrived]

theorem broken : c'.Broken ↔ c.Broken := by
  simp only [Broken, h.size, h.brokeOff]

end SameWarm

theorem SameWarm.setWorker (c : Crew) {stage : WorkerStage}
    (h : stage.isWarm = (c.workers ix).isWarm) : SameWarm c (c.setWorker ix stage) :=
  ⟨rfl, rfl, forall_setWorker (P := fun jx stage => stage.isWarm = (c.workers jx).isWarm) h
    fun _ _ => rfl⟩

section Set

variable {stage : WorkerStage} {jx : Nat}

theorem arrived_setWorker_self :
    (c.setWorker ix stage).arrived ix = (stage.isWarm && !(c.shifts ix).warmup.broke) := by
  rw [arrived, workers_setWorker_self]
  rfl

theorem arrived_setWorker_ne (h : jx ≠ ix) : (c.setWorker ix stage).arrived jx = c.arrived jx := by
  rw [arrived, workers_setWorker_ne h]
  rfl

end Set

namespace Gated

theorem initial (size : Nat) (shifts : Nat → Shift) : (initial size shifts).Gated := by
  refine ⟨?_, fun _ _ h => absurd h Bool.false_ne_true, rfl⟩
  have hnone : ∀ ix ∈ Finset.range size, ¬ (Crew.initial size shifts).arrived ix = true :=
    fun _ _ => Bool.false_ne_true
  exact (congrArg Finset.card (Finset.filter_false_of_mem hnone)).symm

theorem supervise (h : c.Gated) (hsize : c'.size = c.size) (hshifts : c'.shifts = c.shifts)
    (hworkers : c'.workers = c.workers) (hready : c'.ready = c.ready)
    (hgate : c'.gate = .waiting → c.gate = .waiting) (hfits : c'.GateFits) : c'.Gated := by
  have hs : SameWarm c c' := ⟨hsize, hshifts, fun ix => by rw [hworkers]⟩
  refine ⟨by rw [hready, hs.arrivals, h.ready], fun hwaiting ix hix => ?_, hfits⟩
  rw [hworkers] at hix
  rw [hs.brokeOff]
  exact h.early (hgate hwaiting) ix hix

theorem work {stage : WorkerStage} (h : c.Gated) (hwarm : stage.isWarm = (c.workers ix).isWarm)
    (hbeyond : c.gate = .waiting → stage.isBeyond = true → (c.workers ix).isBeyond = true) :
    (c.setWorker ix stage).Gated := by
  have hs := SameWarm.setWorker c hwarm
  refine ⟨h.ready.trans (by rw [hs.arrivals]), fun hwaiting jx hjx => ?_,
    h.fits.mono rfl rfl hs.complete.mpr hs.broken.mpr⟩
  rw [hs.brokeOff]
  refine h.early hwaiting jx (forall_setWorker
    (P := fun jx stage => stage.isBeyond = true → (c.workers jx).isBeyond = true)
    (hbeyond hwaiting) (fun _ _ => id) jx hjx)

/-- A worker comes to the end of its warm-up, which makes no difference to the others. -/
theorem warm {stage : WorkerStage} {n : Nat} (h : c.Gated)
    (hw : (c.workers ix).isWarm = false) (hstage : stage.isWarm = true)
    (hbeyond : stage.isBeyond = true → (c.shifts ix).warmup.broke = true)
    (hready : n = (c.setWorker ix stage).arrivals.card) :
    ({ c.setWorker ix stage with ready := n } : Crew).Gated := by
  have hwarm : ∀ jx, (c.workers jx).isWarm = true →
      ((c.setWorker ix stage).workers jx).isWarm = true :=
    forall_setWorker (P := fun jx stage => (c.workers jx).isWarm = true → stage.isWarm = true)
      (fun _ => hstage) fun _ _ => id
  refine ⟨hready, fun hwaiting jx hjx => ?_, h.fits.mono rfl rfl (fun hc jx hjx => ?_) ?_⟩
  · by_cases he : jx = ix
    · subst he
      have hjx : ((c.setWorker jx stage).workers jx).isBeyond = true := hjx
      rw [workers_setWorker_self] at hjx
      have hself : ((c.setWorker jx stage).workers jx).isWarm = true := by
        rw [workers_setWorker_self]; exact hstage
      exact Bool.and_eq_true_iff.mpr ⟨hself, hbeyond hjx⟩
    · have hjx : ((c.setWorker ix stage).workers jx).isBeyond = true := hjx
      rw [workers_setWorker_ne he] at hjx
      obtain ⟨hjwarm, hbroke⟩ := Bool.and_eq_true_iff.mp (h.early hwaiting jx hjx)
      exact Bool.and_eq_true_iff.mpr ⟨hwarm jx hjwarm, hbroke⟩
  · obtain ⟨hjwarm, hbroke⟩ := Bool.and_eq_true_iff.mp (hc jx hjx)
    exact Bool.and_eq_true_iff.mpr ⟨hwarm jx hjwarm, hbroke⟩
  · rintro ⟨jx, hjx, hb⟩
    obtain ⟨hjwarm, hbroke⟩ := Bool.and_eq_true_iff.mp hb
    exact ⟨jx, hjx, Bool.and_eq_true_iff.mpr ⟨hwarm jx hjwarm, hbroke⟩⟩

theorem breakOff {panic : Panic} {result : Except Interruption UInt64} (h : c.Gated)
    (hw : c.workers ix = .warmingUp [])
    (hbroken : (c.shifts ix).warmup.result = .error (.broken panic)) :
    (c.setWorker ix (.finished result)).Gated := by
  have hcold : (c.workers ix).isWarm = false := by rw [hw]; rfl
  have hbroke := Stretch.broke_of_broken hbroken
  refine h.warm (n := c.ready) hcold rfl (fun _ => hbroke) (h.ready.trans ?_)
  refine congrArg Finset.card (Finset.filter_congr fun jx _ => ?_)
  by_cases hj : jx = ix
  · rw [hj, arrived_setWorker_self, hbroke, arrived, hcold, Bool.not_true, Bool.and_false]
    rfl
  · rw [arrived_setWorker_ne hj]

/-- **Arriving**: the count goes with those who came. -/
theorem arrive (h : c.Gated) (hw : c.workers ix = .warmingUp []) (hix : ix < c.size)
    (hno : ∀ panic, (c.shifts ix).warmup.result ≠ .error (.broken panic)) :
    ({ c.setWorker ix .atGate with ready := c.ready + 1 } : Crew).Gated := by
  have hcold : (c.workers ix).isWarm = false := by rw [hw]; rfl
  have hbroke := Stretch.not_broke hno
  refine h.warm hcold rfl (fun h => absurd h Bool.false_ne_true) ?_
  have hinsert : (c.setWorker ix .atGate).arrivals = insert ix c.arrivals := by
    ext jx
    rw [arrivals, arrivals, Finset.mem_insert, Finset.mem_filter, Finset.mem_filter]
    by_cases hj : jx = ix
    · rw [hj, arrived_setWorker_self, hbroke]
      exact ⟨fun _ => .inl rfl, fun _ => ⟨Finset.mem_range.mpr hix, rfl⟩⟩
    · rw [arrived_setWorker_ne hj]
      exact ⟨.inr, fun hmem => hmem.resolve_left hj⟩
  rw [hinsert, Finset.card_insert_of_notMem, ← h.ready]
  rw [arrivals, Finset.mem_filter, arrived, hcold]
  exact fun hmem => Bool.false_ne_true hmem.2

/-- **One move** keeps the count, and the gate with the supervisor. -/
theorem turn {size : Nat} {shifts : Nat → Shift} {move : Move} (hm : c.Manned size shifts)
    (h : c.Gated) (ht : c.Turn move c') : c'.Gated := by
  have hfits := h.fits
  unfold GateFits at hfits
  cases ht with
  | @hire ix hs hix =>
    have hunborn : c.workers ix = .unborn := hm.unborn ix (by rw [Crew.hired, hs])
    have hset : (c.setWorker ix (.warmingUp (c.shifts ix).warmup.steps)).Gated :=
      h.work (by rw [hunborn]; rfl) fun _ hb => absurd hb Bool.false_ne_true
    rw [hs] at hfits
    exact hset.supervise rfl rfl rfl rfl id hfits
  | allHired hs | notReady hs | noneFinished hs =>
    rw [hs] at hfits
    exact h.supervise rfl rfl rfl rfl id hfits
  | allReady hs hready =>
    rw [hs] at hfits
    have hcomplete : c.Complete := by
      have hle := (Finset.card_filter_le (Finset.range c.size) fun ix => c.arrived ix = true)
      rw [Finset.card_range] at hle
      exact c.complete_iff.mpr (Nat.le_antisymm hle (h.ready ▸ hready))
    exact h.supervise rfl rfl rfl rfl id (.inl ⟨hfits, hcomplete⟩)
  | oneFinished hs hfinished =>
    rw [hs] at hfits
    obtain ⟨ix, hix, hf⟩ := List.any_eq_true.mp hfinished
    have hbeyond : (c.workers ix).isBeyond = true := by
      cases hw : c.workers ix with
      | finished => rfl
      | _ => rw [hw] at hf; cases hf
    exact h.supervise rfl rfl rfl rfl id
      ⟨hfits, ix, List.mem_range.mp hix, h.early hfits ix hbeyond⟩
  | abort hs =>
    rw [hs] at hfits
    exact h.supervise rfl rfl rfl rfl (fun hw => Gate.noConfusion hw) (.inr ⟨rfl, hfits.2⟩)
  | openGate hs =>
    rw [hs] at hfits
    exact h.supervise rfl rfl rfl rfl (fun hw => Gate.noConfusion hw)
      ⟨rfl, hfits.imp And.right And.right⟩
  | collect hs =>
    rw [hs] at hfits
    exact h.supervise rfl rfl rfl rfl id hfits
  | conclude hs =>
    rw [hs] at hfits
    exact h.supervise rfl rfl rfl rfl id (.inr hfits)
  | giveUp hs =>
    rw [hs] at hfits
    exact h.supervise rfl rfl rfl rfl id (.inl hfits)
  | refuse reason hs => exact h.supervise rfl rfl rfl rfl (fun hw => Gate.noConfusion hw) rfl
  | @call ix stage step left lock inside hstage hw =>
    have hset : (c.setWorker ix (stage left)).Gated :=
      h.work (by cases hstage <;> rw [hw] <;> rfl) fun _ => by cases hstage <;> rw [hw] <;> exact id
    exact hset.supervise rfl rfl rfl rfl id hset.fits
  | breakOff hw hbroken => exact h.breakOff hw hbroken
  | arrive hw hno => exact h.arrive hw (hm.below (by rw [hw]; rfl)) hno
  | wait => exact h
  | begin hw hgate =>
    refine h.work (by rw [hw]; rfl) fun hwaiting => ?_
    rw [hgate] at hwaiting
    cases hwaiting
  | @giveBack ix started hw hgate =>
    refine h.work (by rw [hw]; rfl) fun hwaiting => ?_
    rw [hgate] at hwaiting
    cases started <;> cases hwaiting
  | finish hw => exact h.work (by rw [hw]; rfl) fun _ _ => by rw [hw]; rfl

end Gated

theorem warm_mono {size : Nat} {shifts : Nat → Shift} {move : Move} (hm : c.Manned size shifts)
    (ht : c.Turn move c') (hwarm : (c.workers ix).isWarm = true) :
    (c'.workers ix).isWarm = true := by
  have hset : ∀ {jx} (stage : WorkerStage), (stage.isWarm = true ∨ (c.workers jx).isWarm = false) →
      ((c.setWorker jx stage).workers ix).isWarm = true := fun {jx} stage h =>
    forall_setWorker (P := fun ix stage => (c.workers ix).isWarm = true → stage.isWarm = true)
      (fun hwarm => h.resolve_right (by simp [hwarm])) (fun _ _ => id) ix hwarm
  cases ht with
  | @hire jx hs hjx =>
    exact hset _ (.inr (by rw [hm.unborn jx (by rw [Crew.hired, hs])]; rfl))
  | allHired | notReady | allReady | noneFinished | oneFinished | abort | openGate | collect
  | conclude | giveUp | refuse | wait => exact hwarm
  | @call jx stage step left lock inside hstage hw =>
    refine hset (stage left) ?_
    cases hstage with
    | warmingUp => exact .inr (by rw [hw]; rfl)
    | timing => exact .inl rfl
  | breakOff | arrive | begin | giveBack | finish => exact hset _ (.inl rfl)

theorem broken_mono {size : Nat} {shifts : Nat → Shift} {move : Move} (hm : c.Manned size shifts)
    (ht : c.Turn move c') : c.Broken → c'.Broken := by
  rintro ⟨ix, hix, hb⟩
  obtain ⟨hwarm, hbroke⟩ := Bool.and_eq_true_iff.mp hb
  have hm' := hm.turn ht
  refine ⟨ix, by rwa [hm'.size, ← hm.size], Bool.and_eq_true_iff.mpr ⟨warm_mono hm ht hwarm, ?_⟩⟩
  rwa [hm'.shifts, ← hm.shifts]

variable {size : Nat} {shifts : Nat → Shift} {moves moves' : List Move}

theorem play_gated (h : (initial size shifts).play moves = some c) :
    c.Manned size shifts ∧ c.Gated :=
  play_keeps (P := fun c => c.Manned size shifts ∧ c.Gated)
    (fun _ _ _ _ ⟨hm, hg⟩ ht => ⟨hm.turn ht, hg.turn hm ht⟩) ⟨.initial .., .initial ..⟩ h

/-- A gate is opened after an abort only because somebody broke off. -/
theorem abort_stays {c c' : Crew} (hm : c.Manned size shifts) (hg : c.Gated)
    (habort : c.gate = .aborted) (h : c.play moves = some c') :
    c'.gate = .aborted ∨ c'.Broken := by
  refine (play_keeps (P := fun c => c.Manned size shifts ∧ c.Gated ∧ (c.gate = .aborted ∨ c.Broken))
    (fun move _ c c' ⟨hm, hg, hor⟩ ht => ⟨hm.turn ht, hg.turn hm ht, ?_⟩)
    ⟨hm, hg, .inl habort⟩ h).2.2
  refine hor.elim (fun habort => ?_) fun hb => .inr (broken_mono hm ht hb)
  have hfits := hg.fits
  unfold GateFits at hfits
  cases ht with
  | abort | refuse => exact .inl rfl
  | openGate hs =>
    rw [hs, habort] at hfits
    exact .inr (hfits.elim (fun h => absurd h.1 (by decide)) And.right)
  | hire | allHired | notReady | allReady | noneFinished | oneFinished | collect | conclude
  | giveUp | call | breakOff | arrive | wait | begin | giveBack | finish => exact .inl habort

/-- The worker is at the gate, and the gate will let it start. -/
structure LetsThrough (c : Crew) (ix : Nat) : Prop where
  waits : c.workers ix = .atGate
  opened : c.gate = .opened

theorem Gated.complete_or_broken (h : c.Gated) (hopened : c.gate = .opened) :
    c.Complete ∨ c.Broken := by
  have hfits := h.fits
  unfold GateFits at hfits
  rw [hopened] at hfits
  split at hfits
  · cases hfits
  · cases hfits
  · cases hfits
  · cases hfits.1
  · exact hfits.elim (fun h => absurd h.1 (by decide)) fun h => absurd h.1 (by decide)
  · exact hfits.2
  · cases hfits
  · exact hfits.elim (fun h => absurd h (by decide)) And.right

/-- **The gate** lets nobody through before all have come, and nobody after it was aborted, unless a
worker broke off in its warm-up. -/
theorem gate_lets_through (h : (initial size shifts).play moves = some c) :
    (∀ ix, c.LetsThrough ix → c.Complete ∨ c.Broken) ∧
    (c.gate = .aborted → ∀ {moves' c'}, c.play moves' = some c' →
      ∀ ix, c'.LetsThrough ix → c'.Broken) := by
  obtain ⟨hm, hg⟩ := play_gated h
  refine ⟨fun ix hl => hg.complete_or_broken hl.opened, fun habort moves' c' h' ix hl => ?_⟩
  refine (abort_stays hm hg habort h').resolve_left fun hstill => ?_
  rw [hl.opened] at hstill
  cases hstill

/-- One of two workers breaks off while it warms up. The gate is aborted, and nevertheless lets the
other one through, alone. -/
theorem gate_lets_through_broken :
    let idle : Stretch := ⟨[], [], .ok (), []⟩
    let breaks : Stretch := ⟨[], [], .error (.broken "no memory"), []⟩
    let shifts : Nat → Shift := fun ix => ⟨if ix = 0 then breaks else idle, idle, 1⟩
    ∃ c c', (initial 2 shifts).play [.supervisor, .supervisor, .worker 0, .worker 1, .supervisor,
        .supervisor, .supervisor, .supervisor] = some c ∧ c.gate = .aborted ∧
      c.play [.supervisor] = some c' ∧ c'.LetsThrough 1 ∧ ¬ c'.Complete ∧ c'.Broken := by
  intro idle breaks shifts
  have h : (initial 2 shifts).play [.supervisor, .supervisor, .worker 0, .worker 1, .supervisor,
    .supervisor, .supervisor, .supervisor] = some _ := rfl
  have hthrough := (gate_lets_through h).2 rfl (rfl : Crew.play _ [.supervisor] = some _) 1
    ⟨rfl, rfl⟩
  refine ⟨_, _, h, rfl, rfl, ⟨rfl, rfl⟩, ?_, hthrough⟩
  exact fun hall => absurd (hall 0 Nat.two_pos) Bool.false_ne_true

end Crew

end LockElision
