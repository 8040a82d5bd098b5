import LockElision.Proofs.Process.Accounts

/-!
# The steps of locking and of trying

What a thread is told that asks its guard directory for a level of a mutex depends on two things:
whether the mutex is recorded there, and whether there is room for one more (`Asked`). From this
follows what each step of a `lock` and of a `tryLock` does.
-/

namespace LockElision

/-- The thread in the middle of this. -/
def Thread.onStage (th : Thread) (stage : Stage) : Thread := { th with stage := stage }

@[simp] theorem Thread.stage_onStage (th : Thread) (stage : Stage) :
    (th.onStage stage).stage = stage := rfl

@[simp] theorem Thread.hold_onStage (th : Thread) (stage : Stage) (key : GuardKey) (m : MutexIx) :
    (th.onStage stage).hold key m = th.hold key m := rfl

namespace World

open LawfulDirectory

variable {M : Set MutexIx} {w u : World} {t : ThreadIx} {m : MutexIx} {key : GuardKey} {s : Step}

/-- The thread's guard directory for the mutex has room for one lock more. -/
def Roomy (w : World) (t : ThreadIx) (m : MutexIx) : Prop :=
  (w.useGuarded t (w.mutexes m).backing fun d => (Directory.hasRoom d, d)).1 = true

/-- The thread once it has looked into its guard directory for the mutex. -/
def looked (w : World) (t : ThreadIx) (m : MutexIx) : Thread :=
  { w.threads t with
    running := true
    guarded := (w.threads t).guarded.opened w.newPooled (w.mutexes m).backing }

/-! ## Asking a guard directory -/

theorem roomy_iff (hs : (w.threads t).guarded.Sound) :
    w.Roomy t m ↔ (w.guardLedger t m).hasRoom (w.mutexes m).backing.capacity = true := by
  obtain ⟨room, shelf, he, hroom, -⟩ :=
    useGuarded_law (w := w) (t := t) (b := (w.mutexes m).backing)
      (P := fun a => a = (w.guardLedger t m).hasRoom (w.mutexes m).backing.capacity)
      (f := fun d => (Directory.hasRoom d, d)) (l := w.guardLedger t m) hs
      fun d hd hcap hl => by
        rw [hasRoom_ledger hd, hcap, hl, guardLedger, ← hl]
        exact ⟨rfl, .refl hd⟩
  rw [Roomy, he, hroom]

theorem records_iff_lookup (hs : (w.threads t).guarded.Sound) :
    w.Records t m ↔ ((w.guardLedger t m).lookup (w.mutexes m).lock).isSome = true := by
  rw [Records, guardDepth_eq hs]

theorem useGuarded_same {α : Type} {f : {D : Type} → [Inspectable D] → D → α × D}
    (hs : (w.threads t).guarded.Sound)
    (hf : ∀ {D : Type} [Inspectable D] [LawfulDirectory D] (d : D), Sound d →
      Directory.capacity d = (w.mutexes m).backing.capacity →
      Directory.ledger d = w.guardLedger t m → (f d).2 = d) :
    (w.useGuarded t (w.mutexes m).backing f).2 = w.looked t m := by
  have hsame := Shelf.use_same w.newPooled hs (PooledDirectory.sound_create ..).1
    (PooledDirectory.ledger_create ..) hf
  exact congrArg (fun shelf => { w.threads t with running := true, guarded := shelf }) hsame

theorem guardDepth_same (hs : (w.threads t).guarded.Sound) :
    (w.guardDepth t m).2 = w.looked t m :=
  useGuarded_same hs fun _ _ _ _ => rfl

/-- What a thread is told that asks its guard directory for a level of a mutex. -/
inductive Asked (w : World) (t : ThreadIx) (m : MutexIx) : AcquireStatus → Prop where
  | nested : w.Records t m → Asked w t m .nested
  | entered : ¬ w.Records t m → w.Roomy t m → Asked w t m .entered
  | full {n : Nat} : ¬ w.Records t m → ¬ w.Roomy t m →
      (w.mutexes m).backing.capacity = some n → Asked w t m .full

theorem recordGuard_asked (hs : (w.threads t).guarded.Sound) :
    ∃ status notice shelf, w.recordGuard t m =
        ((status, notice, (w.mutexes m).backing.capacity.getD 0),
          { w.threads t with running := true, guarded := shelf }) ∧ w.Asked t m status := by
  obtain ⟨notice, shelf, he, -⟩ := recordGuard_law (m := m) hs
  refine ⟨_, notice, shelf, he, ?_⟩
  have hrecords := records_iff_lookup (m := m) hs
  have hroomy := roomy_iff (m := m) hs
  cases hl : (w.guardLedger t m).lookup (w.mutexes m).lock with
  | some n =>
    rw [Ledger.enter_reentrant hl]
    exact .nested (hrecords.mpr (by rw [hl]; rfl))
  | none =>
    have hnot : ¬ w.Records t m := by rw [hrecords, hl]; nofun
    rw [Ledger.enter_of_absent hl]
    by_cases hroom : (w.guardLedger t m).hasRoom (w.mutexes m).backing.capacity = true
    · rw [if_pos hroom]
      exact .entered hnot (hroomy.mpr hroom)
    · rw [if_neg hroom]
      cases hc : (w.mutexes m).backing.capacity with
      | none => exact absurd (by rw [hc]; rfl) hroom
      | some n => exact .full hnot (fun h => hroom (hroomy.mp h)) hc

theorem recordGuard_full (hs : (w.threads t).guarded.Sound) (hnot : ¬ w.Records t m)
    (hfull : ¬ w.Roomy t m) : (w.recordGuard t m).2 = w.looked t m := by
  refine useGuarded_same hs fun d hd hcap hl => ?_
  have hlaw := (admission_law hd (w.mutexes m).lock .reentrant).1
  rw [records_iff_lookup hs, Option.not_isSome_iff_eq_none] at hnot
  rw [roomy_iff hs] at hfull
  rw [hcap, hl, Ledger.enter_of_absent hnot, if_neg hfull] at hlaw
  have hsame := admission_refused (congrArg AcquireStatus.isHeld hlaw)
  exact congrArg Prod.fst hsame

/-- It does not matter whether the thread has looked into its guard directory before it asks. -/
theorem recordGuard_looked {stage : Stage}
    (hth : u.threads t = (w.looked t m).onStage stage)
    (hid : (u.mutexes m).lock = (w.mutexes m).lock ∧
      (u.mutexes m).backing = (w.mutexes m).backing) :
    u.recordGuard t m = ((w.recordGuard t m).1, (w.recordGuard t m).2.onStage stage) := by
  simp only [recordGuard, hid.1, hid.2, useGuarded, hth, looked, Thread.onStage, Shelf.use_opened]

/-! ## Locking -/

/-- The mutex once the thread has made sure of its raw lock, by a call if it had it not yet. -/
def secured (w : World) (t : ThreadIx) (m : MutexIx) (call : Mutex → Mutex) : Mutex :=
  if (w.guardDepth t m).1.isSome then w.mutexes m else call (w.mutexes m)

theorem secured_of_records (call : Mutex → Mutex) (h : w.Records t m) :
    w.secured t m call = w.mutexes m :=
  if_pos h

theorem secured_of_not_records (call : Mutex → Mutex) (h : ¬ w.Records t m) :
    w.secured t m call = call (w.mutexes m) :=
  if_neg h

theorem step_lock (key : GuardKey) (hs : (w.threads t).guarded.Sound)
    (hi : (w.threads t).stage = .idle) :
    ∃ events,
      (w.Records t m → w.step t (.lock m key) =
        some ⟨w.setThread t ((w.recordGuard t m).2.hold key m), .locked, events⟩) ∧
      (¬ w.Records t m → w.Roomy t m → w.step t (.lock m key) =
        some ⟨w.setThread t ((w.recordGuard t m).2.onStage (.taking m key)), .pending, events⟩) ∧
      (¬ w.Records t m → ¬ w.Roomy t m → ∃ n, (w.mutexes m).backing.capacity = some n ∧
        w.step t (.lock m key) = some ⟨w.setThread t (w.looked t m),
          .refused (.capacityExceeded (w.mutexes m).lock n), events⟩) := by
  obtain ⟨status, notice, shelf, he, hasked⟩ := recordGuard_asked (m := m) hs
  refine ⟨noticed notice, ?_⟩
  rw [step_eq_start hi (by simp)]
  simp only [start, he]
  cases hasked with
  | nested hrec => exact ⟨fun _ => rfl, fun h => absurd hrec h, fun h => absurd hrec h⟩
  | entered hnot hroom =>
    exact ⟨fun h => absurd h hnot, fun _ _ => rfl, fun _ h => absurd hroom h⟩
  | @full n hnot hfull hcap =>
    refine ⟨fun h => absurd h hnot, fun _ h => absurd h hfull, fun _ _ => ⟨n, hcap, ?_⟩⟩
    rw [← recordGuard_full hs hnot hfull, he, hcap]
    rfl

/-- What follows the record, with no other thread between. -/
theorem step_taking (th : Thread) (hfree : (w.mutexes m).locked = false) :
    (w.setThread t (th.onStage (.taking m key))).step t .proceed = some
      ⟨(w.setMutex m (w.mutexes m).taken).setThread t (th.hold key m), .locked, []⟩ := by
  have hfree' : ((w.setThread t (th.onStage (.taking m key))).mutexes m).locked = false := hfree
  rw [step, if_pos rfl, proceed]
  simp only [threads_setThread_self, Thread.stage_onStage, hfree', Thread.hold_onStage]
  have hworld := setThread_setThread (w.setMutex m (w.mutexes m).taken) t
    (th.onStage (.taking m key)) (th.hold key m)
  rw [← hworld]
  rfl

theorem step_taking_waits (th : Thread) (hlocked : (w.mutexes m).locked = true) :
    (w.setThread t (th.onStage (.taking m key))).step t .proceed = none := by
  rw [step, if_pos rfl, proceed]
  simp only [threads_setThread_self, Thread.stage_onStage]
  exact if_pos hlocked

/-! ## Trying -/

theorem identity_won (w : World) (t : ThreadIx) (m : MutexIx) :
    (w.secured t m Mutex.won).lock = (w.mutexes m).lock ∧
      (w.secured t m Mutex.won).backing = (w.mutexes m).backing := by
  rw [secured]
  split <;> exact ⟨rfl, rfl⟩

theorem step_tryLock_missed (key : GuardKey) (hs : (w.threads t).guarded.Sound)
    (hi : (w.threads t).stage = .idle)
    (hnot : ¬ w.Records t m) (hlocked : (w.mutexes m).locked = true) :
    w.step t (.tryLock m key) = some
      ⟨(w.setMutex m (w.mutexes m).missed).setThread t (w.looked t m), .missed, []⟩ := by
  rw [Records] at hnot
  rw [step_eq_start hi (by simp)]
  simp only [start, guardDepth_same hs]
  rw [if_neg hnot, if_pos hlocked]
  rfl

theorem step_tryLock_granted (key : GuardKey) (hs : (w.threads t).guarded.Sound)
    (hi : (w.threads t).stage = .idle)
    (h : w.Records t m ∨ (w.mutexes m).locked = false) :
    w.step t (.tryLock m key) = some ⟨(w.setMutex m (w.secured t m Mutex.won)).setThread t
      ((w.looked t m).onStage (.recording m key)), .pending, []⟩ := by
  rw [Records] at h
  rw [step_eq_start hi (by simp)]
  simp only [start, guardDepth_same hs]
  by_cases hrec : (w.guardDepth t m).1.isSome = true
  · rw [if_pos hrec, secured_of_records _ hrec, setMutex_self]
    rfl
  · rw [if_neg hrec, if_neg (by simp [h.resolve_left hrec]), secured_of_not_records _ hrec]
    rfl

theorem step_recording (hs : (w.threads t).guarded.Sound)
    (hth : u.threads t = (w.looked t m).onStage (.recording m key))
    (hid : (u.mutexes m).lock = (w.mutexes m).lock ∧
      (u.mutexes m).backing = (w.mutexes m).backing) :
    ∃ events,
      (w.Records t m ∨ w.Roomy t m → u.step t .proceed =
        some ⟨u.setThread t ((w.recordGuard t m).2.hold key m), .locked, events⟩) ∧
      (¬ w.Records t m → ¬ w.Roomy t m → u.step t .proceed =
        some ⟨u.setThread t ((w.looked t m).onStage (.undoing m)), .pending, events⟩) := by
  obtain ⟨status, notice, shelf, he, hasked⟩ := recordGuard_asked (m := m) hs
  refine ⟨noticed notice, ?_⟩
  have hask := recordGuard_looked hth hid
  rw [he] at hask
  have hstage : (u.threads t).stage = .recording m key := by rw [hth]; rfl
  rw [step, if_pos rfl, proceed]
  simp only [hstage, hask, he]
  cases hasked with
  | nested hrec => exact ⟨fun _ => rfl, fun h => absurd hrec h⟩
  | entered hnot hroom => exact ⟨fun _ => rfl, fun _ h => absurd hroom h⟩
  | full hnot hfull hcap =>
    refine ⟨fun h => absurd h (not_or.mpr ⟨hnot, hfull⟩), fun _ _ => ?_⟩
    rw [← recordGuard_full hs hnot hfull, he]
    rfl

theorem step_granted (key : GuardKey) (hs : (w.threads t).guarded.Sound) :
    let u := (w.setMutex m (w.secured t m Mutex.won)).setThread t
      ((w.looked t m).onStage (.recording m key))
    ∃ events,
      (w.Records t m ∨ w.Roomy t m → u.step t .proceed =
        some ⟨(w.setMutex m (w.secured t m Mutex.won)).setThread t
          ((w.recordGuard t m).2.hold key m), .locked, events⟩) ∧
      (¬ w.Records t m → ¬ w.Roomy t m → u.step t .proceed =
        some ⟨(w.setMutex m (w.secured t m Mutex.won)).setThread t
          ((w.looked t m).onStage (.undoing m)), .pending, events⟩) := by
  intro u
  have hid : (u.mutexes m).lock = (w.mutexes m).lock ∧
      (u.mutexes m).backing = (w.mutexes m).backing := by
    have hu : u.mutexes m = w.secured t m Mutex.won := mutexes_setMutex_self w m _
    rw [hu]
    exact identity_won w t m
  have h := step_recording hs (threads_setThread_self ..) hid
  simp only [setThread_setThread] at h
  exact h

theorem step_undoing (hstage : (u.threads t).stage = .undoing m) : u.step t .proceed =
    some ⟨(u.unlockRaw m).setThread t ((u.threads t).onStage .idle), .missed, []⟩ := by
  rw [step, if_pos rfl, proceed]
  simp only [hstage]
  rfl

theorem unlockRaw_setThread (w : World) (t : ThreadIx) (m : MutexIx) (th : Thread) :
    (w.setThread t th).unlockRaw m = (w.unlockRaw m).setThread t th := rfl

theorem unlockRaw_setMutex (w : World) (m : MutexIx) (mx : Mutex) :
    (w.setMutex m mx).unlockRaw m = w.setMutex m mx.freed := by
  have hmutex := mutexes_setMutex_self w m mx
  show (w.setMutex m mx).setMutex m ((w.setMutex m mx).mutexes m).freed = _
  rw [hmutex, setMutex_setMutex]

theorem onStage_looked (hi : (w.threads t).stage = .idle) :
    (w.looked t m).onStage .idle = w.looked t m := by
  rw [← hi]
  rfl

theorem step_undone (hi : (w.threads t).stage = .idle) (mx : Mutex) :
    ((w.setMutex m mx).setThread t ((w.looked t m).onStage (.undoing m))).step t .proceed =
      some ⟨(w.setMutex m mx.freed).setThread t (w.looked t m), .missed, []⟩ := by
  have hstep := step_undoing (t := t) (m := m)
    (u := (w.setMutex m mx).setThread t ((w.looked t m).onStage (.undoing m)))
    (by rw [threads_setThread_self]; rfl)
  have hidle : ((w.looked t m).onStage (.undoing m)).onStage .idle = w.looked t m :=
    onStage_looked hi
  rw [threads_setThread_self, hidle] at hstep
  rw [hstep, unlockRaw_setThread, unlockRaw_setMutex, setThread_setThread]

end World

end LockElision
