import LockElision.Proofs.Process.Regular

/-!
# What a step does

Every step of a thread but its end is a `Moved`: one lemma for each operation, and all of them
together in `step_moved`.
-/

namespace LockElision

/-- The mutex an action names. -/
def Action.mutex? : Action → Option MutexIx
  | lock m _ | tryLock m _ | depth m => some m
  | _ => none

namespace World

variable {M : Set MutexIx} {w : World} {t : ThreadIx} {m : MutexIx} {key : GuardKey} {s : Step}

theorem Regular.mem (hr : w.Regular M)
    (h : (w.threads t).guardsOf m ≠ 0 ∨ (w.threads t).stage.phase m ≠ .away) : m ∈ M := by
  by_contra hm
  obtain ⟨hg, hp⟩ := hr.within t m hm
  rcases h with h | h
  · exact h hg
  · exact h hp

theorem Regular.mem_guard (hr : w.Regular M) (h : (w.threads t).guard? key = some m) : m ∈ M := by
  refine hr.mem (t := t) (.inl ?_)
  rw [Thread.guardsOf_letGo h, if_pos rfl]
  exact Nat.succ_ne_zero _

theorem Regular.running_of_stage (hr : w.Regular M) (h : (w.threads t).stage ≠ .idle) :
    (w.threads t).running = true :=
  hr.running fun he => h (by rw [he]; rfl)

theorem moved_lock (hr : w.Regular M) (hi : (w.threads t).stage = .idle) (hm : m ∈ M)
    (h : w.start t (.lock m key) = some s) : w.Moved M t s.world := by
  obtain ⟨notice, shelf, he, hb⟩ := recordGuard_law (m := m) (hr.sound t)
  have hoff := fun b l (hl : l ≠ (w.mutexes m).lock) => hb.lookup_eq (Ledger.lookup_enter_ne hl) b
  simp only [start, he] at h
  cases hl : (w.guardLedger t m).lookup (w.mutexes m).lock with
  | none =>
    rw [Ledger.enter_of_absent hl] at h hb
    by_cases hroom : (w.guardLedger t m).hasRoom (w.mutexes m).backing.capacity = true
    · rw [if_pos hroom] at h hb
      obtain rfl := Option.some.inj h
      refine .at hr hm ⟨rfl, hb.sound, hoff, fun _ _ => rfl, fun m' hne => ?_⟩ ?_
      · rw [hi]; exact if_neg hne
      · rw [stand, Thread.stand_eq hl, Thread.stand_eq (by rw [hb.ledger, Finmap.lookup_insert]),
          hi, Stage.phase_taking]
        exact .reserve
    · rw [if_neg hroom] at h hb
      obtain rfl := Option.some.inj h
      exact .alike hr ⟨rfl, hb.sound, fun b l => hb.lookup_eq rfl b, fun _ => rfl, rfl⟩
  | some n =>
    rw [Ledger.enter_reentrant hl] at h hb
    obtain rfl := Option.some.inj h
    refine .at hr hm ⟨rfl, hb.sound, hoff, fun _ hne => Thread.guardsOf_hold_ne hne,
      fun m' hne => ?_⟩ ?_
    · rw [hi]; rfl
    · rw [stand, Thread.stand_eq hl,
        Thread.stand_eq (by rw [Thread.hold, hb.ledger, Finmap.lookup_insert]),
        Thread.guardsOf_hold, if_pos rfl, hi]
      exact .nest (Shelf.depth_pos (hr.sound t) hl)

theorem moved_tryLock (hr : w.Regular M) (hi : (w.threads t).stage = .idle) (hm : m ∈ M)
    (h : w.start t (.tryLock m key) = some s) : w.Moved M t s.world := by
  obtain ⟨shelf, he, hb⟩ := guardDepth_law (m := m) (hr.sound t)
  have hoff : ∀ b l, l ≠ (w.mutexes m).lock →
      (shelf.ledger b).lookup l = ((w.threads t).guarded.ledger b).lookup l :=
    fun b _ _ => hb.lookup_eq rfl b
  simp only [start, he] at h
  cases hl : (w.guardLedger t m).lookup (w.mutexes m).lock with
  | some n =>
    rw [hl] at h
    obtain rfl := Option.some.inj h
    refine .at hr hm ⟨rfl, hb.sound, hoff, fun _ _ => rfl, fun m' hne => ?_⟩ ?_
    · rw [hi]; exact if_neg hne
    · rw [stand, Thread.stand_eq hl, Thread.stand_eq (by rw [hb.ledger, hl]), hi,
        Stage.phase_recording]
      exact .tryNested (Shelf.depth_pos (hr.sound t) hl)
  | none =>
    rw [hl] at h
    by_cases hlocked : (w.mutexes m).locked = true
    · rw [if_pos hlocked] at h
      obtain rfl := Option.some.inj h
      refine .raw hr hm ⟨rfl, hb.sound, hoff, fun _ _ => rfl, fun _ _ => rfl⟩ ⟨rfl, rfl⟩ ?_
      rw [stand, Thread.stand_eq hl, Thread.stand_eq (by rw [hb.ledger, hl])]
      exact .tryMissed hlocked
    · rw [if_neg hlocked] at h
      obtain rfl := Option.some.inj h
      refine .raw hr hm ⟨rfl, hb.sound, hoff, fun _ _ => rfl, fun m' hne => ?_⟩ ⟨rfl, rfl⟩ ?_
      · rw [hi]; exact if_neg hne
      · rw [stand, Thread.stand_eq hl, Thread.stand_eq (by rw [hb.ledger, hl]), hi,
          Stage.phase_recording]
        exact .tryWon (Bool.eq_false_of_not_eq_true hlocked)

/-- How a drop begins: the guard goes, and a level with it. -/
theorem start_drop (hs : (w.threads t).guarded.Sound) (hg : (w.threads t).guard? key = some m) :
    let r := (w.guardLedger t m).withdraw (w.mutexes m).lock .reentrant
    ∃ shelf, (w.threads t).guarded.Becomes shelf (w.mutexes m).backing r.2 ∧
      let th := { w.threads t with running := true, guarded := shelf }.letGo key
      w.start t (.drop key) = some (match r.1 with
        | .left => ⟨w.setThread t { th with stage := .leaving m }, .pending, []⟩
        | .nested => ⟨w.setThread t th, .dropped, []⟩
        | .unbalanced => ⟨w.setThread t th, .orphaned, []⟩) := by
  intro r
  obtain ⟨shelf, he, hb⟩ := withdrawGuard_law (m := m) hs
  refine ⟨shelf, hb, ?_⟩
  simp only [start, hg, he, Option.bind_eq_bind, Option.bind_some]
  cases hstatus : r.1 <;> rfl

theorem moved_drop (hr : w.Regular M) (hi : (w.threads t).stage = .idle)
    (h : w.start t (.drop key) = some s) : w.Moved M t s.world := by
  cases hg : (w.threads t).guard? key with
  | none => simp [start, hg] at h
  | some m =>
    have hm := hr.mem_guard hg
    obtain ⟨shelf, hb, he⟩ := start_drop (hr.sound t) hg
    have hoff := fun b l (hl : l ≠ (w.mutexes m).lock) =>
      hb.lookup_eq (Ledger.lookup_withdraw_ne hl) b
    have hguards : ∀ m', m ≠ m' →
        ((w.threads t).letGo key).guardsOf m' = (w.threads t).guardsOf m' := by
      intro m' hne
      rw [Thread.guardsOf_letGo hg m', if_neg hne]; rfl
    have hbefore : ∀ {o : Option Nat}, (w.guardLedger t m).lookup (w.mutexes m).lock = o →
        w.stand t m = ⟨o.getD 0, ((w.threads t).letGo key).guardsOf m + 1, .away⟩ := by
      intro o ho
      rw [stand, Thread.stand_eq ho, Thread.guardsOf_letGo hg m, if_pos rfl, hi]; rfl
    obtain rfl := Option.some.inj (he.symm.trans h)
    cases hl : (w.guardLedger t m).lookup (w.mutexes m).lock with
    | none =>
      rw [Ledger.withdraw_of_absent hl] at hb ⊢
      refine .at hr hm ⟨rfl, hb.sound, hoff, hguards, fun _ _ => rfl⟩ ?_
      rw [hbefore hl, Thread.stand_eq (by rw [Thread.letGo, hb.ledger, hl])]
      show Turn _ _ _ ⟨_, ((w.threads t).letGo key).guardsOf m, (w.threads t).stage.phase m⟩
      rw [hi]
      exact .dropOrphan
    | some n =>
      rw [Ledger.withdraw_reentrant hl] at hb ⊢
      by_cases hn : 1 < n
      · rw [if_pos hn] at hb ⊢
        obtain ⟨k, rfl⟩ : ∃ k, n = k + 2 := ⟨n - 2, by omega⟩
        refine .at hr hm ⟨rfl, hb.sound, hoff, hguards, fun _ _ => rfl⟩ ?_
        rw [hbefore hl, Thread.stand_eq (by rw [Thread.letGo, hb.ledger, Finmap.lookup_insert])]
        show Turn _ _ _ ⟨_, ((w.threads t).letGo key).guardsOf m, (w.threads t).stage.phase m⟩
        rw [hi]
        exact .dropNested (Nat.succ_pos k)
      · rw [if_neg hn] at hb ⊢
        obtain rfl : n = 1 := by have := Shelf.depth_pos (hr.sound t) hl; omega
        refine .at hr hm ⟨rfl, hb.sound, hoff, hguards, fun m' hne => ?_⟩ ?_
        · rw [hi]; exact if_neg hne
        · rw [hbefore hl, Thread.stand_eq (by rw [Thread.letGo, hb.ledger, Finmap.lookup_erase]),
            Stage.phase_leaving]
          exact .dropLast

theorem moved_forget (hr : w.Regular M) (h : w.start t (.forget key) = some s) :
    w.Moved M t s.world := by
  cases hg : (w.threads t).guard? key with
  | none => simp [start, hg] at h
  | some m =>
    simp only [start, hg, Option.bind_eq_bind, Option.bind_some] at h
    obtain rfl := Option.some.inj h
    refine .alike hr ⟨?_, hr.sound t, fun _ _ => rfl, fun m' => ?_, rfl⟩
    · exact hr.running fun he => by rw [he] at hg; cases hg
    · rw [Thread.guardsOf_letGo hg m', Thread.guardsOf, List.count_cons]
      simp only [beq_iff_eq]
      rw [← Nat.add_assoc]; rfl

theorem moved_depth (hr : w.Regular M) (h : w.start t (.depth m) = some s) :
    w.Moved M t s.world := by
  obtain ⟨shelf, he, hb⟩ := guardDepth_law (m := m) (hr.sound t)
  simp only [start, he] at h
  obtain rfl := Option.some.inj h
  exact .alike hr ⟨rfl, hb.sound, fun b l => hb.lookup_eq rfl b, fun _ => rfl, rfl⟩

theorem moved_shared (hr : w.Regular M) (shelf : Shelf) :
    w.Moved M t (w.setThread t { w.threads t with running := true, shared := shelf }) :=
  .alike hr ⟨rfl, hr.sound t, fun _ _ => rfl, fun _ => rfl, rfl⟩

theorem moved_install (hr : w.Regular M) {sizing : PoolSizing}
    (h : w.start t (.install sizing) = some s) : w.Moved M t s.world := by
  simp only [start] at h
  split at h
  · obtain rfl := Option.some.inj h
    exact .same hr rfl rfl
  · split at h
    all_goals
      obtain rfl := Option.some.inj h
      exact .same hr rfl rfl

theorem start_moved (hr : w.Regular M) (hi : (w.threads t).stage = .idle) {action : Action}
    (hm : ∀ m, action.mutex? = some m → m ∈ M) (hexit : action ≠ .exit)
    (h : w.start t action = some s) : w.Moved M t s.world := by
  cases action with
  | proceed => cases h
  | lock m key => exact moved_lock hr hi (hm m rfl) h
  | tryLock m key => exact moved_tryLock hr hi (hm m rfl) h
  | drop key => exact moved_drop hr hi h
  | forget key => exact moved_forget hr h
  | exit => exact absurd rfl hexit
  | depth m => exact moved_depth hr h
  | install sizing => exact moved_install hr h
  | sizing => obtain rfl := Option.some.inj h; exact .same hr rfl rfl
  | acquire | release | rollBack | sharedDepth | sharedCount | sharedUsage =>
    obtain rfl := Option.some.inj h
    exact moved_shared hr _

/-! ## The steps that follow -/

theorem moved_taking (hr : w.Regular M) (hstage : (w.threads t).stage = .taking m key)
    (h : w.proceed t = some s) : w.Moved M t s.world := by
  have hm : m ∈ M := hr.mem (t := t) (.inr (by simp [hstage]))
  simp only [proceed, hstage] at h
  by_cases hlocked : (w.mutexes m).locked = true
  · rw [if_pos hlocked] at h; cases h
  · rw [if_neg hlocked] at h
    obtain rfl := Option.some.inj h
    refine .raw hr hm ⟨hr.running_of_stage (by simp [hstage]), hr.sound t, fun _ _ _ => rfl,
      fun _ hne => Thread.guardsOf_hold_ne hne, fun m' hne => ?_⟩ ⟨rfl, rfl⟩ ?_
    · rw [hstage]; exact (if_neg hne).symm
    · rw [stand, Thread.stand, Thread.stand, Thread.guardsOf_hold, if_pos rfl, hstage,
        Stage.phase_taking]
      exact .take (Bool.eq_false_of_not_eq_true hlocked)

theorem moved_recording (hr : w.Regular M) (hstage : (w.threads t).stage = .recording m key)
    (h : w.proceed t = some s) : w.Moved M t s.world := by
  have hm : m ∈ M := hr.mem (t := t) (.inr (by simp [hstage]))
  obtain ⟨notice, shelf, he, hb⟩ := recordGuard_law (m := m) (hr.sound t)
  have hoff := fun b l (hl : l ≠ (w.mutexes m).lock) => hb.lookup_eq (Ledger.lookup_enter_ne hl) b
  simp only [proceed, hstage, he] at h
  have hheld : ∀ {o : Option Nat}, (w.guardLedger t m).lookup (w.mutexes m).lock = o →
      (shelf.ledger (w.mutexes m).backing).lookup (w.mutexes m).lock = some (o.getD 0 + 1) →
      w.Moved M t (w.setThread t
        (({ w.threads t with running := true, guarded := shelf } : Thread).hold key m)) := by
    intro o hbefore hafter
    refine .at hr hm ⟨rfl, hb.sound, hoff, fun _ hne => Thread.guardsOf_hold_ne hne,
      fun m' hne => ?_⟩ ?_
    · rw [hstage]; exact (if_neg hne).symm
    · rw [stand, Thread.stand_eq hbefore, Thread.stand_eq (by exact hafter), Thread.guardsOf_hold,
        if_pos rfl, hstage, Stage.phase_recording]
      exact .record
  cases hl : (w.guardLedger t m).lookup (w.mutexes m).lock with
  | none =>
    rw [Ledger.enter_of_absent hl] at h hb
    by_cases hroom : (w.guardLedger t m).hasRoom (w.mutexes m).backing.capacity = true
    · rw [if_pos hroom] at h hb
      obtain rfl := Option.some.inj h
      exact hheld hl (by rw [hb.ledger, Finmap.lookup_insert]; rfl)
    · rw [if_neg hroom] at h hb
      obtain rfl := Option.some.inj h
      refine .at hr hm ⟨rfl, hb.sound, hoff, fun _ _ => rfl, fun m' hne => ?_⟩ ?_
      · rw [hstage]; exact (if_neg hne).trans (if_neg hne).symm
      · rw [stand, Thread.stand_eq hl, Thread.stand_eq (by rw [hb.ledger, hl]), hstage,
          Stage.phase_recording, Stage.phase_undoing]
        exact .spill
  | some n =>
    rw [Ledger.enter_reentrant hl] at h hb
    obtain rfl := Option.some.inj h
    exact hheld hl (by rw [hb.ledger, Finmap.lookup_insert]; rfl)

theorem moved_unlock (hr : w.Regular M)
    (hphase : (w.threads t).stage.phase m = .undoing ∨ (w.threads t).stage.phase m = .leaving) :
    w.Moved M t ((w.unlockRaw m).setThread t { w.threads t with stage := .idle }) := by
  have haway : (w.threads t).stage.phase m ≠ .away := by rcases hphase with h | h <;> simp [h]
  have hm : m ∈ M := hr.mem (.inr haway)
  have hbusy : (w.threads t).stage ≠ .idle := fun h => haway (by rw [h]; rfl)
  refine .raw hr hm ⟨hr.running_of_stage hbusy, hr.sound t, fun _ _ _ => rfl, fun _ _ => rfl,
    fun m' hne => (Stage.phase_of_ne haway hne).symm⟩ ⟨rfl, rfl⟩ ?_
  rw [stand, Thread.stand, Thread.stand]
  rcases hphase with h | h
  · rw [h]; exact .undo
  · rw [h]; exact .leave

theorem proceed_moved (hr : w.Regular M) (h : w.proceed t = some s) : w.Moved M t s.world := by
  cases hstage : (w.threads t).stage with
  | idle => simp [proceed, hstage] at h
  | taking m key => exact moved_taking hr hstage h
  | recording m key => exact moved_recording hr hstage h
  | undoing m =>
    simp only [proceed, hstage] at h
    obtain rfl := Option.some.inj h
    exact moved_unlock hr (.inl (by simp [hstage]))
  | leaving m =>
    simp only [proceed, hstage] at h
    obtain rfl := Option.some.inj h
    exact moved_unlock hr (.inr (by simp [hstage]))

/-- **One step**, but for the end of a thread: every mutex in use sees a turn. -/
theorem step_moved (hr : w.Regular M) {action : Action}
    (hm : ∀ m, action.mutex? = some m → m ∈ M) (hexit : action ≠ .exit)
    (h : w.step t action = some s) : w.Moved M t s.world := by
  rw [step] at h
  split at h
  · exact proceed_moved hr h
  · split at h
    · exact start_moved hr ‹_› hm hexit h
    · cases h

/-- A thread ends when it has no guards at hand. Nothing of it is left, forgotten guards included,
and no raw lock is given back. -/
theorem step_exit (h : w.step t .exit = some s) :
    (w.threads t).stage = .idle ∧ (w.threads t).guards = [] ∧
      s.world = w.setThread t Thread.fresh := by
  rw [step, if_neg (by simp)] at h
  split at h
  · rename_i hidle
    simp only [start] at h
    split at h
    · obtain rfl := Option.some.inj h
      exact ⟨hidle, List.isEmpty_iff.mp ‹_›, rfl⟩
    · cases h
  · cases h

theorem step_leaves (hr : w.Regular M) {action : Action}
    (ha : ∀ m, action.mutex? = some m → m ∈ M)
    (h : w.step t action = some s) : s.world.Regular M ∧
      (∀ t', t' ≠ t → s.world.threads t' = w.threads t') ∧
      ∀ m, (s.world.mutexes m).lock = (w.mutexes m).lock ∧
        (s.world.mutexes m).backing = (w.mutexes m).backing := by
  by_cases hexit : action = .exit
  · subst hexit
    rw [(step_exit h).2.2]
    exact ⟨hr.exit t, fun t' hne => threads_setThread_ne hne w _, fun _ => ⟨rfl, rfl⟩⟩
  · have hmoved := step_moved hr ha hexit h
    exact ⟨hmoved.regular, hmoved.others, hmoved.identity⟩

end World

end LockElision
