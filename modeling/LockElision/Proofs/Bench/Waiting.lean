import LockElision.Proofs.Bench.Order
import LockElision.Proofs.Bench.Turn
import Mathlib.Data.Finset.Max

/-!
# Waiting for locks

The workers of a crew keep the order of locks, whatever the interleaving (`Ordered`), so whoever
waits for a lock waits for somebody who waits, if at all, for a lock of a higher level. Nobody waits
in a circle, and the worker that waits for the highest lock waits for one that can go on.
-/

namespace LockElision

namespace WorkerStage

/-- The real calls that are left until the gate or the end. -/
def left : WorkerStage → List RealStep
  | warmingUp left | timing left => left
  | _ => []

def isWorking : WorkerStage → Bool
  | warmingUp _ | timing _ => true
  | _ => false

/-- The real call that comes next. -/
def next? (stage : WorkerStage) : Option RealStep := stage.left.head?

theorem underWay_of_working {stage : WorkerStage} (h : stage.isWorking = true) :
    stage.isUnderWay = true := by
  cases stage with
  | warmingUp | timing => rfl
  | unborn | atGate | finished => cases h

end WorkerStage

theorem BenchLock.admits_alone {lock : BenchLock} {inside : Occupancy} {ix : Nat}
    (h : lock.admits inside ix = true) (hlock : lock ≠ .shared) : ∀ i ∈ inside, i = ix := by
  intro i hi
  cases lock with
  | shared => exact absurd rfl hlock
  | reentrant => exact beq_iff_eq.mp (List.all_eq_true.mp h i hi)
  | flat | level => rw [List.isEmpty_iff.mp h] at hi; cases hi

/-- How high a lock lies; only the hierarchy has a height. -/
def BenchLock.rank : BenchLock → Nat
  | level i _ => i + 1
  | _ => 0

namespace Crew

variable {c c' : Crew} {ix : Nat} {held : Nat → List BenchLock} {stage : WorkerStage}

/-- The workers are inside the locks `held`, the last one first, and each has an orderly way out. -/
structure Ordered (c : Crew) (held : Nat → List BenchLock) : Prop where
  left : ∀ ix, Orderly (held ix) (c.workers ix).left
  inside : ∀ lock ix, (c.occupancy lock).count ix = (held ix).count lock
  /-- Only the shared lock has several workers inside. -/
  alone : ∀ lock, lock ≠ .shared → ∀ i ∈ c.occupancy lock, ∀ j ∈ c.occupancy lock, i = j

namespace Ordered

theorem nothing_held (h : c.Ordered held) (hleft : (c.workers ix).left = []) : held ix = [] := by
  have ho := h.left ix
  rw [hleft] at ho
  exact ho.of_nil

theorem setWorker (h : c.Ordered held) (hstage : Orderly (held ix) stage.left) :
    (c.setWorker ix stage).Ordered held :=
  ⟨forall_setWorker (P := fun jx stage => Orderly (held jx) stage.left) hstage
    fun jx _ => h.left jx, h.inside, h.alone⟩

/-- A worker goes from the locks it is inside to `locks`, by entering or leaving `lock` only. -/
theorem change {lock : BenchLock} {inside : Occupancy} {locks : List BenchLock}
    (h : c.Ordered held) (hstage : Orderly locks stage.left)
    (hself : inside.count ix = locks.count lock)
    (hothers : ∀ jx, jx ≠ ix → inside.count jx = (c.occupancy lock).count jx)
    (hlocks : ∀ other, other ≠ lock → locks.count other = (held ix).count other)
    (halone : lock ≠ .shared → ∀ i ∈ inside, ∀ j ∈ inside, i = j) :
    ((c.setOccupancy lock inside).setWorker ix stage).Ordered (Function.update held ix locks) := by
  refine ⟨forall_setWorker
    (P := fun jx stage => Orderly (Function.update held ix locks jx) stage.left)
    (by rwa [Function.update_self]) fun jx he => by rw [Function.update_of_ne he]; exact h.left jx,
    fun other jx => ?_, fun other hshared => ?_⟩
  · show ((c.setOccupancy lock inside).occupancy other).count jx = _
    by_cases hl : other = lock
    · rw [hl, occupancy_setOccupancy_self]
      by_cases he : jx = ix
      · rw [he, Function.update_self, hself]
      · rw [Function.update_of_ne he, hothers jx he, h.inside]
    · rw [occupancy_setOccupancy_ne hl, h.inside]
      by_cases he : jx = ix
      · rw [he, Function.update_self, hlocks other hl]
      · rw [Function.update_of_ne he]
  · show ∀ i ∈ (c.setOccupancy lock inside).occupancy other,
      ∀ j ∈ (c.setOccupancy lock inside).occupancy other, i = j
    by_cases hl : other = lock
    · rw [hl, occupancy_setOccupancy_self]; exact halone (hl ▸ hshared)
    · rw [occupancy_setOccupancy_ne hl]; exact h.alone other hshared

theorem enter {lock : BenchLock} {left : List RealStep} (h : c.Ordered held)
    (hleft : (c.workers ix).left = .enter lock :: left) (hstage : stage.left = left)
    (hadmits : lock.admits (c.occupancy lock) ix = true) :
    ((c.setOccupancy lock (ix :: c.occupancy lock)).setWorker ix stage).Ordered
      (Function.update held ix (lock :: held ix)) := by
  have ho := h.left ix
  rw [hleft] at ho
  refine h.change (hstage ▸ ho.of_enter.2) ?_ (fun jx he => List.count_cons_of_ne (Ne.symm he))
    (fun other hl => List.count_cons_of_ne (Ne.symm hl)) fun hshared => ?_
  · rw [List.count_cons_self, List.count_cons_self, h.inside]
  · have hall : ∀ i ∈ ix :: c.occupancy lock, i = ix := fun i hi =>
      (List.mem_cons.mp hi).elim id (BenchLock.admits_alone hadmits hshared i)
    exact fun i hi j hj => (hall i hi).trans (hall j hj).symm

theorem leave {lock : BenchLock} {left : List RealStep} (h : c.Ordered held)
    (hleft : (c.workers ix).left = .leave lock :: left) (hstage : stage.left = left) :
    ((c.setOccupancy lock ((c.occupancy lock).erase ix)).setWorker ix stage).Ordered
      (Function.update held ix (held ix).tail) := by
  have ho := h.left ix
  rw [hleft] at ho
  obtain ⟨rest, hheld, ho⟩ := ho.of_leave
  have hcount := h.inside lock ix
  rw [hheld, List.count_cons_self] at hcount
  rw [hheld, List.tail_cons]
  refine h.change (hstage ▸ ho) ?_ (fun jx he => List.count_erase_of_ne he) (fun other hl => ?_)
    fun hshared i hi j hj => h.alone lock hshared i (List.mem_of_mem_erase hi) j
      (List.mem_of_mem_erase hj)
  · rw [List.count_erase_self, hcount, Nat.add_sub_cancel]
  · rw [hheld, List.count_cons_of_ne (Ne.symm hl)]

/-- **One real call** keeps the order. -/
theorem call {step : RealStep} {left : List RealStep} (h : c.Ordered held)
    (hleft : (c.workers ix).left = step :: left) (hstage : stage.left = left)
    (hcall : c.call ix step = some c') : ∃ held, (c'.setWorker ix stage).Ordered held := by
  cases step with
  | enter lock =>
    simp only [Crew.call] at hcall
    split at hcall
    · obtain rfl := Option.some.inj hcall
      exact ⟨_, h.enter hleft hstage ‹_›⟩
    · cases hcall
  | leave lock =>
    obtain rfl := Option.some.inj hcall
    exact ⟨_, h.leave hleft hstage⟩

theorem of_eq (h : c.Ordered held) (hworkers : c'.workers = c.workers)
    (hoccupancy : c'.occupancy = c.occupancy) : c'.Ordered held :=
  ⟨fun ix => by rw [hworkers]; exact h.left ix, fun lock ix => by rw [hoccupancy, h.inside],
    fun lock => by rw [hoccupancy]; exact h.alone lock⟩

theorem setWorker_of_left (h : c.Ordered held) (hleft : (c.workers ix).left = [])
    (hstage : Orderly [] stage.left) : (c.setWorker ix stage).Ordered held :=
  h.setWorker (by rw [h.nothing_held hleft]; exact hstage)

/-- **One move** keeps the order, if the shifts do. -/
theorem turn {size : Nat} {shifts : Nat → Shift} {move : Move} (hm : c.Manned size shifts)
    (hshifts : ∀ ix, Orderly [] (shifts ix).warmup.steps ∧ Orderly [] (shifts ix).timed.steps)
    (h : c.Ordered held) (ht : c.Turn move c') : ∃ held, c'.Ordered held := by
  rw [← hm.shifts] at hshifts
  cases ht with
  | @hire ix hs hix =>
    have hunborn : c.workers ix = .unborn := hm.unborn ix (by rw [Crew.hired, hs])
    have hset : (c.setWorker ix (.warmingUp (c.shifts ix).warmup.steps)).Ordered held :=
      h.setWorker_of_left (by rw [hunborn]; rfl) (hshifts ix).1
    exact ⟨held, hset.of_eq rfl rfl⟩
  | allHired | notReady | allReady | noneFinished | oneFinished | abort | openGate | collect
  | conclude | giveUp | refuse => exact ⟨held, h.of_eq rfl rfl⟩
  | call hstage hw hcall =>
    exact h.call (by cases hstage <;> rw [hw] <;> rfl) (by cases hstage <;> rfl) hcall
  | @arrive ix hw =>
    have hset : (c.setWorker ix .atGate).Ordered held :=
      h.setWorker_of_left (by rw [hw]; rfl) .done
    exact ⟨held, hset.of_eq rfl rfl⟩
  | wait => exact ⟨held, h⟩
  | @begin ix hw => exact ⟨held, h.setWorker_of_left (by rw [hw]; rfl) (hshifts ix).2⟩
  | breakOff hw | giveBack hw | finish hw =>
    exact ⟨held, h.setWorker_of_left (by rw [hw]; rfl) .done⟩

theorem initial (size : Nat) (shifts : Nat → Shift) :
    (initial size shifts).Ordered fun _ => [] :=
  ⟨fun _ => .done, fun _ _ => rfl, fun _ _ _ h => absurd h List.not_mem_nil⟩

end Ordered

/-! ## Who waits for whom -/

variable {lock lock' other : BenchLock} {jx : Nat}

/-- The worker is about to enter a lock that does not admit it. -/
structure Awaits (c : Crew) (ix : Nat) (lock : BenchLock) : Prop where
  next : (c.workers ix).next? = some (.enter lock)
  refused : lock.admits (c.occupancy lock) ix = false

/-- A worker waits for those who are inside the lock it is about to enter. -/
def WaitsFor (c : Crew) (ix jx : Nat) : Prop := ∃ lock, c.Awaits ix lock ∧ jx ∈ c.occupancy lock

/-- How high the lock lies that the worker is about to enter. -/
def awaitedRank (c : Crew) (ix : Nat) : Nat :=
  match (c.workers ix).next? with
  | some (.enter lock) => lock.rank
  | _ => 0

theorem Awaits.awaitedRank_eq (ha : c.Awaits ix lock) : c.awaitedRank ix = lock.rank := by
  simp only [awaitedRank, ha.next]

theorem Awaits.unique (ha : c.Awaits ix lock) (ha' : c.Awaits ix lock') : lock = lock' :=
  RealStep.enter.inj (Option.some.inj (ha.next.symm.trans ha'.next))

theorem awaits_of_stuck (hwork : (c.workers ix).isWorking = true) (h : c.stepWorker ix = none) :
    ∃ lock, c.Awaits ix lock := by
  have hcall : ∀ {step left}, (c.workers ix).left = step :: left → c.call ix step = none →
      ∃ lock, c.Awaits ix lock := by
    intro step left hleft hcall
    cases step with
    | leave lock => cases hcall
    | enter lock =>
      simp only [Crew.call] at hcall
      split at hcall
      · cases hcall
      · exact ⟨lock, by rw [WorkerStage.next?, hleft]; rfl, Bool.eq_false_of_not_eq_true ‹_›⟩
  cases hw : c.workers ix with
  | unborn | atGate | finished => rw [hw] at hwork; cases hwork
  | warmingUp left | timing left =>
    simp only [stepWorker, hw] at h
    cases left with
    | nil => cases h
    | cons step left => exact hcall (by rw [hw]; rfl) (Option.map_eq_none_iff.mp h)

namespace Ordered

theorem mem_held (h : c.Ordered held) : ix ∈ c.occupancy lock ↔ lock ∈ held ix := by
  rw [← List.count_pos_iff, h.inside, List.count_pos_iff]

theorem below_next (h : c.Ordered held) (hnext : (c.workers ix).next? = some (.enter lock))
    (hin : ix ∈ c.occupancy other) : other.Below lock := by
  obtain ⟨left, hleft⟩ := List.head?_eq_some_iff.mp hnext
  have ho := h.left ix
  rw [hleft] at ho
  exact ho.of_enter.1 other (h.mem_held.mp hin)

theorem awaits_other (h : c.Ordered held) (ha : c.Awaits ix lock) :
    ∃ jx, jx ≠ ix ∧ jx ∈ c.occupancy lock := by
  have hself : ix ∈ c.occupancy lock → lock.Below lock := h.below_next ha.next
  have hrefused := ha.refused
  cases lock with
  | shared => cases hrefused
  | reentrant =>
    obtain ⟨jx, hjx, hne⟩ := List.all_eq_false.mp hrefused
    exact ⟨jx, fun he => hne (beq_iff_eq.mpr he), hjx⟩
  | flat =>
    obtain ⟨jx, hjx⟩ := List.exists_mem_of_ne_nil _ (List.isEmpty_eq_false_iff.mp hrefused)
    exact ⟨jx, fun he => hself (he ▸ hjx), hjx⟩
  | level i j =>
    obtain ⟨jx, hjx⟩ := List.exists_mem_of_ne_nil _ (List.isEmpty_eq_false_iff.mp hrefused)
    exact ⟨jx, fun he => Nat.lt_irrefl i (hself (he ▸ hjx)), hjx⟩

theorem awaits_above (h : c.Ordered held) (ha : c.Awaits ix lock) (hin : ix ∈ c.occupancy other) :
    ∃ i a j b, other = .level i a ∧ lock = .level j b ∧ i < j := by
  have hbelow := h.below_next ha.next hin
  match other, lock, hbelow with
  | .level i a, .level j b, hlt => exact ⟨i, a, j, b, rfl, rfl, hlt⟩
  | .reentrant, .reentrant, _ =>
    obtain ⟨jx, hne, hjx⟩ := h.awaits_other ha
    exact absurd (h.alone .reentrant nofun jx hjx ix hin) hne
  | .shared, .shared, _ =>
    have hrefused := ha.refused
    cases hrefused

theorem waitsFor_rises (h : c.Ordered held) {kx : Nat}
    (hwait : Relation.TransGen c.WaitsFor ix kx) :
    ∀ {lock lock' : BenchLock}, c.Awaits ix lock → c.Awaits kx lock' → lock.rank < lock'.rank := by
  have hone : ∀ {ix jx : Nat} {lock lock' : BenchLock}, c.WaitsFor ix jx → c.Awaits ix lock →
      c.Awaits jx lock' → lock.rank < lock'.rank := by
    intro ix jx lock lock' hwait ha ha'
    obtain ⟨lock₁, ha₁, hin⟩ := hwait
    obtain rfl : lock = lock₁ := ha.unique ha₁
    obtain ⟨i, a, j, b, rfl, rfl, hlt⟩ := h.awaits_above ha' hin
    exact Nat.succ_lt_succ hlt
  induction hwait with
  | single hwait => exact fun ha ha' => hone hwait ha ha'
  | tail _ hwait ih =>
    intro lock lock' ha ha'
    obtain ⟨lock₁, ha₁, -⟩ := id hwait
    exact Nat.lt_trans (ih ha ha₁) (hone hwait ha₁ ha')

/-- **Nobody waits in a circle.** -/
theorem acyclic (h : c.Ordered held) (ix : Nat) : ¬ Relation.TransGen c.WaitsFor ix ix := by
  intro hwait
  obtain ⟨jx, ⟨lock, ha, -⟩, -⟩ := Relation.TransGen.head'_iff.mp hwait
  exact Nat.lt_irrefl _ (h.waitsFor_rises hwait ha ha)

theorem working_of_mem (h : c.Ordered held) (hin : ix ∈ c.occupancy lock) :
    (c.workers ix).isWorking = true := by
  have hheld := h.mem_held.mp hin
  cases hw : c.workers ix with
  | warmingUp | timing => rfl
  | unborn | atGate | finished =>
    rw [h.nothing_held (by rw [hw]; rfl)] at hheld
    cases hheld

/-- **Somebody can go on**, as long as somebody is at work: whoever waits for the highest lock waits
for one who does not wait. -/
theorem progress (h : c.Ordered held) {size : Nat} {shifts : Nat → Shift}
    (hm : c.Manned size shifts) (hwork : (c.workers ix).isWorking = true) :
    ∃ jx c', (c.workers jx).isWorking = true ∧ c.stepWorker jx = some c' := by
  by_contra hnone
  have hawaits : ∀ jx, (c.workers jx).isWorking = true → ∃ lock, c.Awaits jx lock := by
    intro jx hjx
    refine awaits_of_stuck hjx (Option.eq_none_iff_forall_ne_some.mpr fun c' hc' => ?_)
    exact hnone ⟨jx, c', hjx, hc'⟩
  have hbelow : ∀ jx, (c.workers jx).isWorking = true → jx < c.size := fun jx hjx =>
    hm.below (WorkerStage.underWay_of_working hjx)
  obtain ⟨jx, hjx, hmax⟩ := Finset.exists_max_image
    ((Finset.range c.size).filter fun jx => (c.workers jx).isWorking = true) c.awaitedRank
    ⟨ix, Finset.mem_filter.mpr ⟨Finset.mem_range.mpr (hbelow ix hwork), hwork⟩⟩
  obtain ⟨lock, ha⟩ := hawaits jx (Finset.mem_filter.mp hjx).2
  obtain ⟨kx, -, hkx⟩ := h.awaits_other ha
  have hworking := h.working_of_mem hkx
  obtain ⟨lock', ha'⟩ := hawaits kx hworking
  have hle := hmax kx (Finset.mem_filter.mpr ⟨Finset.mem_range.mpr (hbelow kx hworking), hworking⟩)
  have hlt := h.waitsFor_rises (.single ⟨lock, ha, hkx⟩) ha ha'
  rw [ha.awaitedRank_eq, ha'.awaitedRank_eq] at hle
  omega

end Ordered

end Crew

namespace Plan

variable {p : Plan} {site : Site} {moves : List Move} {c : Crew}

theorem crew_ordered (hp : p.validate = .ok ()) (h : (p.crew site).play moves = some c) :
    ∃ size shifts held, c.Manned size shifts ∧ c.Ordered held := by
  have hshifts := fun ix : Nat =>
    (p.shift_lawful (runnable hp) site (UInt64.ofNat ix)).orderly
  obtain ⟨hm, held, ho⟩ := Crew.play_keeps
    (P := fun c => c.Manned p.threads.toNat (fun ix => p.shift site (UInt64.ofNat ix)) ∧
      ∃ held, c.Ordered held)
    (fun _ _ _ _ ⟨hm, _, ho⟩ ht => ⟨hm.turn ht, ho.turn hm hshifts ht⟩)
    ⟨.initial .., _, .initial ..⟩ h
  exact ⟨_, _, held, hm, ho⟩

/-- **Workers never deadlock.** However the workers of a valid plan interleave: whatever a worker is
about to enter lies above all the hierarchy locks it is inside; it waits only for a lock that
another worker is inside, and then it is inside locks of lower levels only; nobody waits in a
circle; and as long as a worker is under way, one of them has a move, one of those at work if any
is. -/
theorem crew_never_deadlocks (hp : p.validate = .ok ())
    (h : (p.crew site).play moves = some c) :
    (∀ ix lock, (c.workers ix).next? = some (.enter lock) →
      ∀ i a, ix ∈ c.occupancy (.level i a) → ∃ j b, lock = .level j b ∧ i < j) ∧
    (∀ ix lock, c.Awaits ix lock → (∃ jx, jx ≠ ix ∧ jx ∈ c.occupancy lock) ∧
      ∀ other, ix ∈ c.occupancy other →
        ∃ i a j b, other = .level i a ∧ lock = .level j b ∧ i < j) ∧
    (∀ ix, ¬ Relation.TransGen c.WaitsFor ix ix) ∧
    (∀ ix, (c.workers ix).isWorking = true →
      ∃ jx c', (c.workers jx).isWorking = true ∧ c.step (.worker jx) = some c') ∧
    (∀ ix, (c.workers ix).isUnderWay = true →
      ∃ jx c', (c.workers jx).isUnderWay = true ∧ c.step (.worker jx) = some c') := by
  obtain ⟨size, shifts, held, hm, ho⟩ := crew_ordered hp h
  refine ⟨fun ix lock hnext i a hin => ?_, fun ix lock ha => ⟨ho.awaits_other ha, fun _ hin =>
    ho.awaits_above ha hin⟩, ho.acyclic, fun ix hwork => ho.progress hm hwork, fun ix hway => ?_⟩
  · have hbelow := ho.below_next hnext hin
    match lock, hbelow with
    | .level j b, hlt => exact ⟨j, b, rfl, hlt⟩
  · have hworking : (c.workers ix).isWorking = true → ∃ jx c',
        (c.workers jx).isUnderWay = true ∧ c.step (.worker jx) = some c' := by
      intro hwork
      obtain ⟨jx, c', hjx, hs⟩ := ho.progress hm hwork
      exact ⟨jx, c', WorkerStage.underWay_of_working hjx, hs⟩
    cases hw : c.workers ix with
    | unborn | finished => rw [hw] at hway; cases hway
    | warmingUp | timing => exact hworking (by rw [hw]; rfl)
    | atGate =>
      -- at the gate a worker looks again, or goes on
      have hstep : (c.step (.worker ix)).isSome = true := by
        rw [Crew.step, Crew.stepWorker, hw]
        cases c.gate <;> rfl
      obtain ⟨c', hs⟩ := Option.isSome_iff_exists.mp hstep
      exact ⟨ix, c', by rw [hw]; rfl, hs⟩

/-- Two workers climb the same stair of six levels, with room for four: one is on its way up, and
the other one waits for it at the bottom. -/
theorem crew_never_deadlocks_stair :
    let p : Plan := ⟨2, 2, 1, 0, .shieldedStrict, .hierarchical 6 1 6, .bounded, false, 0⟩
    ∃ c, (p.crew (p.site (fun _ => 0) .standard 1)).play
        [.supervisor, .supervisor, .worker 0, .worker 0] = some c ∧
      c.Awaits 1 (.level 0 0) ∧ (∃ jx, jx ≠ 1 ∧ jx ∈ c.occupancy (.level 0 0)) ∧
      (∀ ix, ¬ Relation.TransGen c.WaitsFor ix ix) ∧
      ∃ jx c', (c.workers jx).isWorking = true ∧ c.step (.worker jx) = some c' := by
  intro p
  have hsight : ((p.crew (p.site (fun _ => 0) .standard 1)).play
      [.supervisor, .supervisor, .worker 0, .worker 0]).map (fun c =>
        ((c.workers 1).next?, (BenchLock.level 0 0).admits (c.occupancy (.level 0 0)) 1,
          (c.workers 1).isWorking)) = some (some (.enter (.level 0 0)), false, true) := by
    decide +kernel
  obtain ⟨c, h, hc⟩ := Option.map_eq_some_iff.mp hsight
  obtain ⟨hnext, hrest⟩ := Prod.mk.inj hc
  obtain ⟨hadmits, hworking⟩ := Prod.mk.inj hrest
  obtain ⟨-, hawaits, hacyclic, hprogress, -⟩ := crew_never_deadlocks rfl h
  have ha : c.Awaits 1 (.level 0 0) := ⟨hnext, hadmits⟩
  exact ⟨_, h, ha, (hawaits 1 _ ha).1, hacyclic, hprogress 1 hworking⟩

end Plan

end LockElision
