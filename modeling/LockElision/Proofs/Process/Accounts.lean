import LockElision.Proofs.Process.Exclusion

/-!
# Guards account for depth

A thread is as deep in a mutex as it has guards of it, and a raw lock was taken once more often than
it was given back exactly while it is taken. Both hold in every world that is reached (`Accounted`),
in whatever order guards are dropped and whichever of them are forgotten.
-/

namespace LockElision

/-- The raw try of a step took the raw lock. -/
def Mutex.winsTry (mx mx' : Mutex) : Bool := !mx.locked && decide (mx.tryCalls < mx'.tryCalls)

/-- A step that holds what it gives back keeps the raw calls in balance. -/
theorem Turn.calls {mx mx' : Mutex} {s s' : Stand} (h : Turn mx s mx' s')
    (hlocked : s.Holds → mx.locked = true) :
    mx'.lockCalls + (mx.winsTry mx').toNat + (mx.unlockCalls + mx.locked.toNat) =
      mx.lockCalls + (mx'.unlockCalls + mx'.locked.toNat) := by
  cases h with
  | take hfree => simp [Mutex.winsTry, Mutex.taken, hfree]; omega
  | tryWon hfree => simp [Mutex.winsTry, Mutex.won, hfree]; omega
  | tryMissed hlocked => simp [Mutex.winsTry, Mutex.missed, hlocked]
  | undo | leave => simp [Mutex.winsTry, Mutex.freed, hlocked trivial]
  | _ => simp [Mutex.winsTry]

theorem Turn.unlocks {mx mx' : Mutex} {s s' : Stand} (h : Turn mx s mx' s')
    (hne : mx'.unlockCalls ≠ mx.unlockCalls) : s.phase = .undoing ∨ s.phase = .leaving := by
  cases h with
  | undo => exact .inl rfl
  | leave => exact .inr rfl
  | _ => exact absurd rfl hne

namespace World

variable {M : Set MutexIx} {w w' : World} {t : ThreadIx} {m : MutexIx} {key : GuardKey}
  {lost : Prop}

/-- How often a raw try of the mutex succeeded. -/
def triesWon (past : List Deed) (m : MutexIx) : Nat :=
  past.countP fun deed => (deed.before.mutexes m).winsTry (deed.result.world.mutexes m)

theorem guardDepth_eq (hs : (w.threads t).guarded.Sound) (m : MutexIx) :
    (w.guardDepth t m).1 = (w.guardLedger t m).lookup (w.mutexes m).lock := by
  obtain ⟨shelf, he, -⟩ := guardDepth_law (m := m) hs
  rw [he]

theorem depth_eq_guardsOf (hs : (w.threads t).guarded.Sound) (hk : (w.stand t m).Settled)
    (hi : (w.threads t).stage = .idle) :
    (w.guardDepth t m).1.getD 0 = (w.threads t).guardsOf m := by
  rw [stand, Thread.stand, hi] at hk
  rw [guardDepth_eq hs]
  exact hk

theorem guardDepth_setThread {th : Thread} (hs : th.guarded.Sound) :
    ((w.setThread t th).guardDepth t m).1 =
      (th.guarded.ledger (w.mutexes m).backing).lookup (w.mutexes m).lock := by
  have hth := threads_setThread_self w t th
  rw [guardDepth_eq (by rw [hth]; exact hs), guardLedger, hth]; rfl

theorem step_eq_start {action : Action} (hi : (w.threads t).stage = .idle)
    (ha : action ≠ .proceed) : w.step t action = w.start t action := by
  rw [step, if_neg ha, if_pos hi]

/-- How the drop of a guard of `m` begins, and all it does if another level is left. -/
inductive Drops (w : World) (t : ThreadIx) (key : GuardKey) (m : MutexIx) : Prop where
  | nested {n : Nat} {w' : World} : (w.guardDepth t m).1 = some (n + 2) →
      w.step t (.drop key) = some ⟨w', .dropped, []⟩ → w'.mutexes = w.mutexes →
      (w'.guardDepth t m).1 = some (n + 1) → Drops w t key m
  | last {w' : World} : (w.guardDepth t m).1 = some 1 →
      w.step t (.drop key) = some ⟨w', .pending, []⟩ → w'.mutexes = w.mutexes →
      (w'.guardDepth t m).1 = none → (w'.threads t).stage = .leaving m → Drops w t key m

/-- A guard at hand has its record, so it is never dropped in vain. -/
theorem drops (hs : (w.threads t).guarded.Sound) (hk : (w.stand t m).Settled)
    (hi : (w.threads t).stage = .idle) (hg : (w.threads t).guard? key = some m) :
    w.Drops t key m := by
  obtain ⟨shelf, hb, he⟩ := start_drop hs hg
  have hguards := depth_eq_guardsOf hs hk hi
  rw [Thread.guardsOf_letGo hg, if_pos rfl] at hguards
  have hdepth := guardDepth_eq hs m
  cases hl : (w.guardLedger t m).lookup (w.mutexes m).lock with
  | none => rw [hdepth, hl] at hguards; cases hguards
  | some n =>
    rw [hl] at hdepth
    rw [Ledger.withdraw_reentrant hl] at hb he
    by_cases hn : 1 < n
    · obtain ⟨k, rfl⟩ : ∃ k, n = k + 2 := ⟨n - 2, by omega⟩
      rw [if_pos hn] at hb he
      refine .nested hdepth ((step_eq_start hi (by simp)).trans he) rfl ?_
      rw [guardDepth_setThread hb.sound]
      show (shelf.ledger _).lookup _ = _
      rw [hb.ledger, Finmap.lookup_insert]; rfl
    · obtain rfl : n = 1 := by have := Shelf.depth_pos hs hl; omega
      rw [if_neg hn] at hb he
      refine .last hdepth ((step_eq_start hi (by simp)).trans he) rfl ?_ ?_
      · rw [guardDepth_setThread hb.sound]
        show (shelf.ledger _).lookup _ = _
        rw [hb.ledger, Finmap.lookup_erase]
      · rw [threads_setThread_self]

theorem answer_ne_orphaned {action : Action} {s : Step} (ha : ∀ key, action ≠ .drop key)
    (h : w.step t action = some s) : s.answer ≠ .orphaned := by
  rw [step] at h
  split at h
  · simp only [proceed] at h
    repeat' split at h
    all_goals first
      | obtain rfl := Option.some.inj h; simp
      | cases h
  · split at h
    · cases action with
      | drop key => exact absurd rfl (ha key)
      | forget key =>
        cases hg : (w.threads t).guard? key with
        | none => simp [start, hg] at h
        | some m =>
          simp only [start, hg, Option.bind_eq_bind, Option.bind_some] at h
          obtain rfl := Option.some.inj h
          simp
      | _ =>
        simp only [start] at h
        repeat' split at h
        all_goals first
          | obtain rfl := Option.some.inj h; simp
          | cases h
    · cases h

/-- What is true of guards, depths and raw calls in a world reached with `past` behind it. -/
structure Accounted (M : Set MutexIx) (past : List Deed) (w : World) : Prop where
  /-- Between its operations a thread is told its depth: the number of its guards. -/
  depth : ∀ t, ∀ m ∈ M, (w.threads t).stage = .idle →
    (∃ w', w.step t (.depth m) = some ⟨w', .depth (w.guardDepth t m).1, []⟩) ∧
    (w.guardDepth t m).1.getD 0 = (w.threads t).guardsOf m ∧
    ((w.guardDepth t m).1.isSome = true ↔ 0 < (w.guardDepth t m).1.getD 0)
  /-- Any guard at hand can be dropped, and it takes the record along if it is the last one. -/
  drop : ∀ t key m, (w.threads t).stage = .idle → (w.threads t).guard? key = some m →
    w.Drops t key m
  /-- The raw unlock that ends such a drop is of a raw lock that is taken. -/
  leave : ∀ t m, (w.threads t).stage = .leaving m → (w.mutexes m).locked = true ∧
    ∃ w', w.step t .proceed = some ⟨w', .dropped, []⟩ ∧ w'.mutexes = (w.unlockRaw m).mutexes
  /-- No raw lock was given back but at the end of such a drop, or of a try without room. -/
  unlocks : ∀ deed ∈ past, ∀ m ∈ M,
    (deed.result.world.mutexes m).unlockCalls ≠ (deed.before.mutexes m).unlockCalls →
    (deed.before.threads deed.thread).stage = .undoing m ∨
      (deed.before.threads deed.thread).stage = .leaving m
  /-- No guard outlived its record. -/
  recorded : ∀ deed ∈ past, deed.result.answer ≠ .orphaned
  calls : ∀ m ∈ M, (w.mutexes m).lockCalls + triesWon past m =
    (w.mutexes m).unlockCalls + (w.mutexes m).locked.toNat

variable {hash : LockId → UInt64} {mutexes : MutexIx → LockId × Backing} {past : List Deed}

/-- A step does to a raw lock what some turn does, and the end of a thread does nothing to it. -/
theorem step_turn (hr : w.Regular M) {action : Action} {s : Step}
    (ha : ∀ m, action.mutex? = some m → m ∈ M) (h : w.step t action = some s) (hm : m ∈ M) :
    ∃ stand, Turn (w.mutexes m) (w.stand t m) (s.world.mutexes m) stand := by
  by_cases hexit : action = .exit
  · subst hexit
    rw [(step_exit h).2.2]
    exact ⟨_, .still⟩
  · exact ⟨_, (step_moved hr ha hexit h).turn m hm⟩

theorem Run.calls (hids : Set.InjOn (fun m => (mutexes m).1) M)
    (h : Run M (initial hash mutexes) past w) (hm : m ∈ M) :
    (w.mutexes m).lockCalls + triesWon past m =
      (w.mutexes m).unlockCalls + (w.mutexes m).locked.toNat := by
  induction h with
  | begin => rfl
  | wake t _ ih => exact ih
  | @step past w t action s hrun ha hs ih =>
    obtain ⟨hr, hk⟩ := hrun.kept hids
    obtain ⟨stand, hturn⟩ := step_turn hr ha hs hm
    have hcalls := hturn.calls fun hheld => (hk m hm).locked.mpr ⟨some t, hheld⟩
    rw [triesWon, List.countP_cons]
    cases hwon : (w.mutexes m).winsTry (s.world.mutexes m) with
    | true => rw [hwon] at hcalls; simp [triesWon] at *; omega
    | false => rw [hwon] at hcalls; simp [triesWon] at *; omega

theorem leave_step (hr : w.Regular M) (hk : ∀ m ∈ M, w.Kept m (Abandoned past m))
    (hstage : (w.threads t).stage = .leaving m) : (w.mutexes m).locked = true ∧
      ∃ w', w.step t .proceed = some ⟨w', .dropped, []⟩ ∧ w'.mutexes = (w.unlockRaw m).mutexes := by
  have hphase : (w.stand t m).phase = .leaving := by simp [stand, Thread.stand, hstage]
  have hm : m ∈ M := hr.mem (t := t) (.inr (by simp [hstage]))
  have hheld := ((hk m hm).settled t).holds_iff.mpr (.inr (.inr (.inr hphase)))
  refine ⟨(hk m hm).locked.mpr ⟨some t, hheld⟩,
    (w.unlockRaw m).setThread t { w.threads t with stage := .idle }, ?_, rfl⟩
  rw [step, if_pos rfl]
  simp only [proceed, hstage]

theorem step_unlocks (hr : w.Regular M) {action : Action} {s : Step}
    (ha : ∀ m, action.mutex? = some m → m ∈ M) (h : w.step t action = some s) (hm : m ∈ M)
    (hne : (s.world.mutexes m).unlockCalls ≠ (w.mutexes m).unlockCalls) :
    (w.threads t).stage = .undoing m ∨ (w.threads t).stage = .leaving m := by
  obtain ⟨stand, hturn⟩ := step_turn hr ha h hm
  obtain ⟨-, -, hundoing, hleaving⟩ := Stage.phase_eq (w.threads t).stage m
  exact (hturn.unlocks hne).imp hundoing.mp hleaving.mp

theorem step_recorded (hr : w.Regular M) (hk : ∀ m ∈ M, w.Kept m (Abandoned past m))
    {action : Action} {s : Step} (h : w.step t action = some s) : s.answer ≠ .orphaned := by
  by_cases ha : ∀ key, action ≠ .drop key
  · exact answer_ne_orphaned ha h
  · obtain ⟨key, rfl⟩ := not_forall_not.mp ha
    have hi : (w.threads t).stage = .idle := by
      rw [step, if_neg (by simp)] at h
      split at h
      · assumption
      · cases h
    cases hg : (w.threads t).guard? key with
    | none => rw [step_eq_start hi (by simp)] at h; simp [start, hg] at h
    | some m =>
      cases drops (hr.sound t) ((hk m (hr.mem_guard hg)).settled t) hi hg with
      | nested _ hs => rw [hs] at h; cases h; simp
      | last _ hs => rw [hs] at h; cases h; simp

/-- **Guards account for depth**, and raw calls balance, in every world that is reached: however
threads interleave, in whatever order guards are dropped, and whichever of them are forgotten. -/
theorem Run.accounted (hids : Set.InjOn (fun m => (mutexes m).1) M)
    (h : Run M (initial hash mutexes) past w) : Accounted M past w := by
  obtain ⟨hr, hk⟩ := h.kept hids
  refine ⟨fun t m hm hi => ⟨⟨w.setThread t (w.guardDepth t m).2, ?_⟩, ?_, ?_⟩,
    fun t key m hi hg => ?_, fun t m hs => ?_, fun deed hd m hm hne => ?_, fun deed hd => ?_,
    fun m hm => h.calls hids hm⟩
  · exact step_eq_start hi (by simp)
  · exact depth_eq_guardsOf (hr.sound t) ((hk m hm).settled t) hi
  · have hrec := records_iff (m := m) (hr.sound t)
    rw [Records] at hrec
    rw [hrec, guardDepth_eq (hr.sound t)]; rfl
  · exact drops (hr.sound t) ((hk m (hr.mem_guard hg)).settled t) hi hg
  · exact leave_step hr hk hs
  · obtain ⟨⟨past', hrun⟩, ha, hs⟩ := h.deed hd
    exact step_unlocks (hrun.kept hids).1 ha hs hm hne
  · obtain ⟨⟨past', hrun⟩, -, hs⟩ := h.deed hd
    exact step_recorded (hrun.kept hids).1 (hrun.kept hids).2 hs

/-- A guard dropped before the one that came after it: the raw unlock waits for the second drop. -/
theorem Run.accounted_out_of_order :
    let mutexes : MutexIx → LockId × Backing := fun m => (⟨UInt64.ofNat m⟩, .bounded)
    ∃ past w, Run {5} (initial (fun _ => 0) mutexes) past w ∧ Accounted {5} past w ∧
      (w.mutexes 5).unlockCalls = 1 ∧ (w.mutexes 5).locked = false := by
  intro mutexes
  have h₀ : Run {5} (initial (fun _ => 0) mutexes) [] _ := .begin
  have h₁ := h₀.step (by rintro _ ⟨⟩; rfl) (rfl : World.step _ 0 (.lock 5 (.slot 0)) = some _)
  have h₂ := h₁.step (by rintro _ ⟨⟩) (rfl : World.step _ 0 .proceed = some _)
  have h₃ := h₂.step (by rintro _ ⟨⟩; rfl) (rfl : World.step _ 0 (.lock 5 (.slot 1)) = some _)
  have h₄ := h₃.step (by rintro _ ⟨⟩) (rfl : World.step _ 0 (.drop (.slot 0)) = some _)
  have h₅ := h₄.step (by rintro _ ⟨⟩) (rfl : World.step _ 0 (.drop (.slot 1)) = some _)
  have h₆ := h₅.step (by rintro _ ⟨⟩) (rfl : World.step _ 0 .proceed = some _)
  exact ⟨_, _, h₆, h₆.accounted (Set.injOn_singleton ..), rfl, rfl⟩

end World

end LockElision
