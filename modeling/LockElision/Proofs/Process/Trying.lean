import LockElision.Proofs.Process.Asking

/-!
# Trying a mutex

A try takes the raw lock first and the record next, and gives the raw lock back if there is no room
for the record; locking records first and takes the raw lock next. Where neither has to wait, they
come to the same.

`World.Attempt` is a try among any steps of other threads, and `World.Underway` tells how far it can
be: its own steps lead from one to the next, and those of others do not get in the way. With no
other thread between, a try is compared with a `lock` from the same world. `World.TryAgrees` has
what comes of both.
-/

namespace LockElision

/-- The thread's directories record what they did. -/
structure Thread.RecordsAlike (th th' : Thread) : Prop where
  guarded : ∀ b, th'.guarded.records b = th.guarded.records b
  shared : ∀ b, th'.shared.records b = th.shared.records b

/-- A step that calls no raw `lock` and does nothing to other mutexes and other threads. -/
structure Deed.Mild (deed : Deed) (m : MutexIx) : Prop where
  lockCalls : ∀ m', (deed.result.world.mutexes m').lockCalls = (deed.before.mutexes m').lockCalls
  mutexes : ∀ m', m' ≠ m → deed.result.world.mutexes m' = deed.before.mutexes m'
  threads : ∀ t, t ≠ deed.thread → deed.result.world.threads t = deed.before.threads t

open World in
theorem Deed.mild_of_calls {deed : Deed} {m : MutexIx} {mx : Mutex} {th : Thread}
    (hworld : deed.result.world = (deed.before.setMutex m mx).setThread deed.thread th)
    (hcalls : mx.lockCalls = (deed.before.mutexes m).lockCalls) : deed.Mild m := by
  have hmutexes : deed.result.world.mutexes = (deed.before.setMutex m mx).mutexes := by
    rw [hworld]; rfl
  refine ⟨fun m' => ?_, fun m' hne => ?_, fun t hne => ?_⟩
  · rw [hmutexes]
    by_cases he : m' = m
    · rw [he, mutexes_setMutex_self, hcalls]
    · rw [mutexes_setMutex_ne he]
  · rw [hmutexes, mutexes_setMutex_ne hne]
  · rw [hworld, threads_setThread_ne hne]; rfl

namespace World

variable {M : Set MutexIx} {w w' u u' : World} {t : ThreadIx} {m : MutexIx} {key : GuardKey}

/-- The same raw locks are taken, and every directory records what it did. -/
structure RecordsAlike (w w' : World) : Prop where
  locked : ∀ m, (w'.mutexes m).locked = (w.mutexes m).locked
  threads : ∀ t, (w.threads t).RecordsAlike (w'.threads t)

/-- Threads have the same directories and guards and are told the same depths, and the same raw
locks are taken. -/
structure Alike (w w' : World) : Prop where
  threads : w'.threads = w.threads
  depth : ∀ t m, (w'.guardDepth t m).1 = (w.guardDepth t m).1
  locked : ∀ m, (w'.mutexes m).locked = (w.mutexes m).locked

/-- What came of a try of the thread, while others took any steps: the thread's own steps, the
newest first, the world they led to, and the answer to the last of them. -/
inductive Attempt (M : Set MutexIx) (w : World) (t : ThreadIx) (m : MutexIx) (key : GuardKey) :
    List Deed → World → Answer → Prop where
  | first {s : Step} : w.step t (.tryLock m key) = some s →
      Attempt M w t m key [⟨w, t, .tryLock m key, s⟩] s.world s.answer
  | next {own : List Deed} {u : World} {s : Step} : Attempt M w t m key own u .pending →
      u.step t .proceed = some s →
      Attempt M w t m key (⟨u, t, .proceed, s⟩ :: own) s.world s.answer
  | other {own : List Deed} {u : World} {t' : ThreadIx} {action : Action} {s : Step} :
      Attempt M w t m key own u .pending → t' ≠ t → (∀ m', action.mutex? = some m' → m' ∈ M) →
      u.step t' action = some s → Attempt M w t m key own s.world .pending
  | wake {own : List Deed} {u : World} (t' : ThreadIx) : Attempt M w t m key own u .pending →
      Attempt M w t m key own (u.awaken t') .pending

/-! ## With no other thread between -/

variable {w₁ w₂ : World} {action : Action} {a : Answer} {e₁ e₂ e₃ : List Event}

theorem perform_one (h : w.step t action = some ⟨w', a, e₁⟩) (ha : a ≠ .pending) :
    w.perform t action = some ⟨w', a, e₁⟩ := by
  simp [perform, h, perform.onward, ha]

theorem perform_two (h₁ : w.step t action = some ⟨w₁, .pending, e₁⟩)
    (h₂ : w₁.step t .proceed = some ⟨w', a, e₂⟩) (ha : a ≠ .pending) :
    w.perform t action = some ⟨w', a, e₁ ++ e₂⟩ := by
  simp [perform, h₁, perform.onward, h₂, ha]

theorem perform_three (h₁ : w.step t action = some ⟨w₁, .pending, e₁⟩)
    (h₂ : w₁.step t .proceed = some ⟨w₂, .pending, e₂⟩)
    (h₃ : w₂.step t .proceed = some ⟨w', a, e₃⟩) :
    w.perform t action = some ⟨w', a, e₁ ++ e₂ ++ e₃⟩ := by
  simp [perform, h₁, perform.onward, h₂, h₃]

section Perform

variable (key) (hs : (w.threads t).guarded.Sound) (hi : (w.threads t).stage = .idle)

include hs hi

theorem perform_lock_locked (h : w.Records t m ∨ (w.mutexes m).locked = false ∧ w.Roomy t m) :
    ∃ events, w.perform t (.lock m key) =
      some ⟨(w.setMutex m (w.secured t m Mutex.taken)).setThread t
        ((w.recordGuard t m).2.hold key m), .locked, events⟩ := by
  obtain ⟨events, hnested, hentered, -⟩ := step_lock (m := m) key hs hi
  by_cases hrec : w.Records t m
  · rw [secured_of_records _ hrec, setMutex_self]
    exact ⟨_, perform_one (hnested hrec) (by simp)⟩
  · obtain ⟨hfree, hroom⟩ := h.resolve_left hrec
    rw [secured_of_not_records _ hrec]
    exact ⟨_, perform_two (hentered hrec hroom) (step_taking _ hfree) (by simp)⟩

theorem perform_lock_refused (hnot : ¬ w.Records t m) (hfull : ¬ w.Roomy t m) :
    ∃ n events, (w.mutexes m).backing.capacity = some n ∧ w.perform t (.lock m key) =
      some ⟨w.setThread t (w.looked t m), .refused (.capacityExceeded (w.mutexes m).lock n),
        events⟩ := by
  obtain ⟨events, -, -, hrefused⟩ := step_lock (m := m) key hs hi
  obtain ⟨n, hcap, hstep⟩ := hrefused hnot hfull
  exact ⟨n, events, hcap, perform_one hstep (by simp)⟩

theorem perform_lock_waits (hnot : ¬ w.Records t m) (hroom : w.Roomy t m)
    (hlocked : (w.mutexes m).locked = true) : w.perform t (.lock m key) = none := by
  obtain ⟨events, -, hentered, -⟩ := step_lock (m := m) key hs hi
  simp [perform, hentered hnot hroom, perform.onward, step_taking_waits _ hlocked]

theorem perform_lock_refused_only {s : Step} {fault : Fault}
    (h : w.perform t (.lock m key) = some s) (hfault : s.answer = .refused fault) :
    ¬ w.Records t m ∧ ¬ w.Roomy t m := by
  have hnever : ¬ (w.Records t m ∨ (w.mutexes m).locked = false ∧ w.Roomy t m) := by
    intro hmay
    obtain ⟨events, hperform⟩ := perform_lock_locked key hs hi hmay
    obtain rfl := Option.some.inj (hperform.symm.trans h)
    cases hfault
  obtain ⟨hnot, hnone⟩ := not_or.mp hnever
  refine ⟨hnot, fun hroom => ?_⟩
  have hlocked : (w.mutexes m).locked = true :=
    Bool.eq_true_of_not_eq_false fun hfree => hnone ⟨hfree, hroom⟩
  rw [perform_lock_waits key hs hi hnot hroom hlocked] at h
  cases h

theorem perform_tryLock_missed (hnot : ¬ w.Records t m)
    (hlocked : (w.mutexes m).locked = true) : w.perform t (.tryLock m key) = some
      ⟨(w.setMutex m (w.mutexes m).missed).setThread t (w.looked t m), .missed, []⟩ :=
  perform_one (step_tryLock_missed key hs hi hnot hlocked) (by simp)

theorem perform_tryLock_locked (h : w.Records t m ∨ (w.mutexes m).locked = false ∧ w.Roomy t m) :
    ∃ events, w.perform t (.tryLock m key) =
      some ⟨(w.setMutex m (w.secured t m Mutex.won)).setThread t
        ((w.recordGuard t m).2.hold key m), .locked, events⟩ := by
  have hfirst := step_tryLock_granted key hs hi (h.imp_right And.left)
  obtain ⟨events, hsecond, -⟩ := step_granted (m := m) key hs
  exact ⟨_, perform_two hfirst (hsecond (h.imp_right And.right)) (by simp)⟩

theorem perform_tryLock_undone (hnot : ¬ w.Records t m) (hfull : ¬ w.Roomy t m)
    (hfree : (w.mutexes m).locked = false) : ∃ events, w.perform t (.tryLock m key) =
      some ⟨(w.setMutex m (w.mutexes m).won.freed).setThread t (w.looked t m), .missed,
        events⟩ := by
  have hfirst := step_tryLock_granted (m := m) key hs hi (.inr hfree)
  obtain ⟨events, -, hsecond⟩ := step_granted (m := m) key hs
  rw [secured_of_not_records _ hnot] at hfirst hsecond
  exact ⟨_, perform_three hfirst (hsecond hnot hfull) (step_undone hi _)⟩

end Perform

/-! ## Among other threads -/

/-- How far a try can be after so many steps of its own. -/
inductive Underway (w : World) (t : ThreadIx) (m : MutexIx) (key : GuardKey) :
    Nat → World → Answer → Prop where
  | recording {u : World} : w.Records t m ∨ (w.mutexes m).locked = false →
      u.threads t = (w.looked t m).onStage (.recording m key) → Underway w t m key 1 u .pending
  | undoing {u : World} : ¬ w.Records t m → (w.mutexes m).locked = false → ¬ w.Roomy t m →
      u.threads t = (w.looked t m).onStage (.undoing m) → Underway w t m key 2 u .pending
  | locked {u : World} : w.Records t m ∨ (w.mutexes m).locked = false ∧ w.Roomy t m →
      u.threads t = (w.recordGuard t m).2.hold key m → Underway w t m key 2 u .locked
  | missed {n : Nat} {u : World} : n ≤ 3 → ¬ w.Records t m →
      ((w.mutexes m).locked = false → ¬ w.Roomy t m) → u.threads t = w.looked t m →
      (u.mutexes m).locked = (w.mutexes m).locked → Underway w t m key n u .missed

variable {n : Nat} {own : List Deed} {s : Step}

theorem underway_first (key : GuardKey) (hs : (w.threads t).guarded.Sound)
    (hi : (w.threads t).stage = .idle) :
    ∃ s, w.step t (.tryLock m key) = some s ∧ w.Underway t m key 1 s.world s.answer ∧
      Deed.Mild ⟨w, t, .tryLock m key, s⟩ m := by
  by_cases h : w.Records t m ∨ (w.mutexes m).locked = false
  · refine ⟨_, step_tryLock_granted key hs hi h, .recording h (threads_setThread_self ..),
      Deed.mild_of_calls rfl ?_⟩
    rw [secured]
    split <;> rfl
  · obtain ⟨hnot, hlocked⟩ := not_or.mp h
    have hlocked : (w.mutexes m).locked = true := Bool.eq_true_of_not_eq_false hlocked
    refine ⟨_, step_tryLock_missed key hs hi hnot hlocked, .missed (by omega) hnot (fun hfree => ?_)
      (threads_setThread_self ..) ?_, Deed.mild_of_calls rfl rfl⟩
    · rw [hlocked] at hfree; cases hfree
    · show ((w.setMutex m (w.mutexes m).missed).mutexes m).locked = (w.mutexes m).locked
      rw [mutexes_setMutex_self]; rfl

/-- The next step, whatever other threads did in the meantime. -/
theorem Underway.next (hs : (w.threads t).guarded.Sound) (hi : (w.threads t).stage = .idle)
    (hid : (u.mutexes m).lock = (w.mutexes m).lock ∧
      (u.mutexes m).backing = (w.mutexes m).backing)
    (h : w.Underway t m key n u .pending) :
    ∃ s, u.step t .proceed = some s ∧ w.Underway t m key (n + 1) s.world s.answer ∧
      Deed.Mild ⟨u, t, .proceed, s⟩ m := by
  cases h with
  | recording hmay hth =>
    obtain ⟨events, hlocked, hundoing⟩ := step_recording hs hth hid
    have hmild : ∀ {th a}, Deed.Mild ⟨u, t, .proceed, ⟨u.setThread t th, a, events⟩⟩ m :=
      Deed.mild_of_calls (by rw [setMutex_self]) rfl
    by_cases h : w.Records t m ∨ w.Roomy t m
    · refine ⟨_, hlocked h, .locked ?_ (threads_setThread_self ..), hmild⟩
      by_cases hrec : w.Records t m
      · exact .inl hrec
      · exact .inr ⟨hmay.resolve_left hrec, h.resolve_left hrec⟩
    · obtain ⟨hnot, hfull⟩ := not_or.mp h
      exact ⟨_, hundoing hnot hfull, .undoing hnot (hmay.resolve_left hnot) hfull
        (threads_setThread_self ..), hmild⟩
  | undoing hnot hfree hfull hth =>
    refine ⟨_, step_undoing (m := m) (by rw [hth]; rfl), .missed (by omega) hnot (fun _ => hfull)
      ?_ ?_, Deed.mild_of_calls rfl rfl⟩
    · rw [threads_setThread_self, hth]
      exact onStage_looked hi
    · rw [hfree]
      exact congrArg Mutex.locked (mutexes_setMutex_self u m _)

theorem Underway.other (hth : u'.threads t = u.threads t) (h : w.Underway t m key n u .pending) :
    w.Underway t m key n u' .pending := by
  cases h with
  | recording hmay h => exact .recording hmay (hth.trans h)
  | undoing hnot hfree hfull h => exact .undoing hnot hfree hfull (hth.trans h)

theorem Underway.awaken (h : w.Underway t m key n u .pending) (t' : ThreadIx) :
    w.Underway t m key n (u.awaken t') .pending := by
  by_cases he : t = t'
  · subst he
    have hth : (u.awaken t).threads t = { u.threads t with running := true } :=
      threads_setThread_self ..
    cases h with
    | recording hmay h => exact .recording hmay (by rw [hth, h]; rfl)
    | undoing hnot hfree hfull h => exact .undoing hnot hfree hfull (by rw [hth, h]; rfl)
  · exact h.other (threads_setThread_ne he u _)

/-- **Along every try**, however other threads interleave, it is as far as it can be, and each of
its own steps is mild. -/
theorem Attempt.underway (hr : w.Regular M) (hi : (w.threads t).stage = .idle) (hm : m ∈ M)
    (h : w.Attempt M t m key own u a) : (u.Regular M ∧
      (u.mutexes m).lock = (w.mutexes m).lock ∧ (u.mutexes m).backing = (w.mutexes m).backing) ∧
      w.Underway t m key own.length u a ∧ ∀ deed ∈ own, deed.Mild m := by
  induction h with
  | @first s hs =>
    obtain ⟨s', hs', hunder, hmild⟩ := underway_first (m := m) key (hr.sound t) hi
    obtain rfl : s' = s := Option.some.inj (hs'.symm.trans hs)
    obtain ⟨hregular, -, hid⟩ := step_leaves hr (by rintro _ ⟨⟩; exact hm) hs
    exact ⟨⟨hregular, hid m⟩, hunder, by simpa using hmild⟩
  | @next own u s hatt hs ih =>
    obtain ⟨⟨hru, hidu⟩, hunder, hmilds⟩ := ih
    obtain ⟨s', hs', hunder', hmild⟩ := hunder.next (hr.sound t) hi hidu
    obtain rfl : s' = s := Option.some.inj (hs'.symm.trans hs)
    obtain ⟨hregular, -, hid⟩ := step_leaves hru (by rintro _ ⟨⟩) hs
    exact ⟨⟨hregular, (hid m).1.trans hidu.1, (hid m).2.trans hidu.2⟩, hunder',
      List.forall_mem_cons.mpr ⟨hmild, hmilds⟩⟩
  | @other own u t' action s hatt hne ha hs ih =>
    obtain ⟨⟨hru, hidu⟩, hunder, hmilds⟩ := ih
    obtain ⟨hregular, hothers, hid⟩ := step_leaves hru ha hs
    exact ⟨⟨hregular, (hid m).1.trans hidu.1, (hid m).2.trans hidu.2⟩,
      hunder.other (hothers t (Ne.symm hne)), hmilds⟩
  | wake t' hatt ih =>
    obtain ⟨⟨hru, hidu⟩, hunder, hmilds⟩ := ih
    exact ⟨⟨(awaken_moved hru t').regular, hidu⟩, hunder.awaken t', hmilds⟩

theorem Underway.length_le (h : w.Underway t m key n u a) : n ≤ 3 := by
  cases h <;> omega

theorem Underway.locked_iff (h : w.Underway t m key n u a) (ha : a ≠ .pending) :
    (a = .locked ∨ a = .missed) ∧
      (a = .locked ↔ w.Records t m ∨ (w.mutexes m).locked = false ∧ w.Roomy t m) := by
  cases h with
  | recording | undoing => exact absurd rfl ha
  | locked hmay _ => exact ⟨.inl rfl, iff_of_true rfl hmay⟩
  | missed _ hnot hfull =>
    refine ⟨.inr rfl, iff_of_false (by simp) ?_⟩
    rintro (hrec | ⟨hfree, hroom⟩)
    · exact hnot hrec
    · exact hfull hfree hroom

/-- A try that hands out a guard leaves its thread just as locking would have. -/
theorem Underway.handed (hs : (w.threads t).guarded.Sound) (hi : (w.threads t).stage = .idle)
    (h : w.Underway t m key n u .locked) : ∃ s, w.perform t (.lock m key) = some s ∧
      s.answer = .locked ∧ u.threads t = s.world.threads t := by
  cases h with
  | locked hmay hth =>
    obtain ⟨events, hperform⟩ := perform_lock_locked key hs hi hmay
    exact ⟨_, hperform, rfl, hth.trans (threads_setThread_self ..).symm⟩

theorem Attempt.run {start : World} {past : List Deed} (hrun : Run M start past w) (hm : m ∈ M)
    (h : w.Attempt M t m key own u a) : ∃ past', Run M start past' u := by
  induction h with
  | first hs => exact ⟨_, hrun.step (by rintro _ ⟨⟩; exact hm) hs⟩
  | next hatt hs ih =>
    obtain ⟨past', hrun'⟩ := ih
    exact ⟨_, hrun'.step (by rintro _ ⟨⟩) hs⟩
  | other hatt hne ha hs ih =>
    obtain ⟨past', hrun'⟩ := ih
    exact ⟨_, hrun'.step ha hs⟩
  | wake t' hatt ih =>
    obtain ⟨past', hrun'⟩ := ih
    exact ⟨_, hrun'.wake t'⟩

theorem Underway.hasRaw {lost : Prop} (hr : u.Regular M) (hk : u.Kept m lost)
    (h : w.Underway t m key n u .pending) : u.HasRaw t m := by
  refine hasRaw_of_holds hr hk ((hk.settled t).holds_iff.mpr (.inr ?_))
  cases h with
  | recording _ hth => exact .inl (by rw [stand, Thread.stand, hth]; simp)
  | undoing _ _ _ hth => exact .inr (.inl (by rw [stand, Thread.stand, hth]; simp))

/-! ## Trying and locking -/

/-- What trying a mutex comes to, and what locking it does, for a thread between operations. -/
structure TryAgrees (M : Set MutexIx) (w : World) (t : ThreadIx) (m : MutexIx) (key : GuardKey) :
    Prop where
  /-- A try can always begin. -/
  begins : ∃ s, w.step t (.tryLock m key) = some s
  /-- It ends after three steps at most. None of them waits, calls a raw `lock`, or does anything to
  another mutex or another thread, whatever other threads do in between; meanwhile the raw lock is
  the thread's own. -/
  goesOn : ∀ own u a, w.Attempt M t m key own u a → own.length ≤ 3 ∧ (∀ deed ∈ own, deed.Mild m) ∧
    (a = .pending → u.HasRaw t m ∧ ∃ s, u.step t .proceed = some s)
  /-- It hands out a guard exactly if the thread has the mutex already, or if the raw lock was free
  and the thread's guard directory has room. -/
  locked : ∀ own u a, w.Attempt M t m key own u a → a ≠ .pending → (a = .locked ∨ a = .missed) ∧
    (a = .locked ↔ w.Records t m ∨ (w.mutexes m).locked = false ∧ w.Roomy t m)
  /-- A try that hands out a guard leaves its thread just as locking would have. -/
  handed : ∀ own u, w.Attempt M t m key own u .locked → ∃ s, w.perform t (.lock m key) = some s ∧
    s.answer = .locked ∧ u.threads t = s.world.threads t
  /-- A try in vain leaves the raw lock as it was, and all that the thread has on record. -/
  missed : ∀ own u, w.Attempt M t m key own u .missed →
    (u.mutexes m).locked = (w.mutexes m).locked ∧ (w.threads t).RecordsAlike (u.threads t)
  /-- With no other thread between, a try in vain leaves all raw locks and all records as they
  were. -/
  alone : ∃ s, w.perform t (.tryLock m key) = some s ∧
    (s.answer = .locked ↔ w.Records t m ∨ (w.mutexes m).locked = false ∧ w.Roomy t m) ∧
    (s.answer ≠ .locked → s.answer = .missed ∧ w.RecordsAlike s.world)
  /-- Where the thread has the mutex or the raw lock is free, locking comes to the same. -/
  beside : w.Records t m ∨ (w.mutexes m).locked = false → ∃ s s',
    w.perform t (.lock m key) = some s ∧ w.perform t (.tryLock m key) = some s' ∧
    (s'.answer = .locked ↔ s.answer = .locked) ∧ s.world.Alike s'.world
  /-- Without room locking is refused, and calls no raw lock at all. -/
  refused : ¬ w.Records t m → ¬ w.Roomy t m → ∃ s n, w.perform t (.lock m key) = some s ∧
    (w.mutexes m).backing.capacity = some n ∧
    s.answer = .refused (.capacityExceeded (w.mutexes m).lock n) ∧ s.world.mutexes = w.mutexes
  /-- Locking is not refused for any other reason. -/
  refusedOnly : ∀ s fault, w.perform t (.lock m key) = some s → s.answer = .refused fault →
    ¬ w.Records t m ∧ ¬ w.Roomy t m

theorem newPooled_empty (w : World) : w.newPooled.holdings = [] :=
  (PooledDirectory.sound_create ..).2

theorem recordsAlike_looked (w : World) (t : ThreadIx) (m : MutexIx) :
    (w.threads t).RecordsAlike (w.looked t m) :=
  ⟨fun b => Shelf.records_opened w.newPooled_empty (w.mutexes m).backing b, fun _ => rfl⟩

theorem Underway.in_vain (h : w.Underway t m key n u .missed) :
    (u.mutexes m).locked = (w.mutexes m).locked ∧ (w.threads t).RecordsAlike (u.threads t) := by
  cases h with
  | missed _ _ _ hth hlocked =>
    rw [hth]
    exact ⟨hlocked, recordsAlike_looked w t m⟩

theorem recordsAlike_of_look {mx : Mutex} (hlocked : mx.locked = (w.mutexes m).locked) :
    w.RecordsAlike ((w.setMutex m mx).setThread t (w.looked t m)) := by
  refine ⟨fun m' => ?_, fun t' => ?_⟩
  · show ((w.setMutex m mx).mutexes m').locked = _
    by_cases he : m' = m
    · rw [he, mutexes_setMutex_self, hlocked]
    · rw [mutexes_setMutex_ne he]
  · by_cases he : t' = t
    · rw [he, threads_setThread_self]
      exact recordsAlike_looked w t m
    · rw [threads_setThread_ne he]
      exact ⟨fun _ => rfl, fun _ => rfl⟩

theorem guardDepth_congr (hthreads : w'.threads = w.threads) (hmake : w'.newPooled = w.newPooled)
    (hid : (w'.mutexes m).lock = (w.mutexes m).lock ∧
      (w'.mutexes m).backing = (w.mutexes m).backing) :
    (w'.guardDepth t m).1 = (w.guardDepth t m).1 := by
  simp only [guardDepth, useGuarded, hthreads, hmake, hid]

theorem alike_of_calls {mx mx' : Mutex} {th : Thread} (hlocked : mx'.locked = mx.locked)
    (hid : mx'.lock = mx.lock ∧ mx'.backing = mx.backing) :
    ((w.setMutex m mx).setThread t th).Alike ((w.setMutex m mx').setThread t th) := by
  have hsame : ∀ {α : Type} (f : Mutex → α), f mx' = f mx → ∀ m',
      f ((w.setMutex m mx').mutexes m') = f ((w.setMutex m mx).mutexes m') := by
    intro α f hf m'
    by_cases he : m' = m
    · rw [he, mutexes_setMutex_self, mutexes_setMutex_self, hf]
    · rw [mutexes_setMutex_ne he, mutexes_setMutex_ne he]
  exact ⟨rfl, fun _ m' => guardDepth_congr rfl rfl
    ⟨hsame Mutex.lock hid.1 m', hsame Mutex.backing hid.2 m'⟩, hsame Mutex.locked hlocked⟩

variable {hash : LockId → UInt64} {mutexes : MutexIx → LockId × Backing} {past : List Deed}

theorem perform_tryLock (key : GuardKey) (hs : (w.threads t).guarded.Sound)
    (hi : (w.threads t).stage = .idle) :
    ∃ s, w.perform t (.tryLock m key) = some s ∧
      (s.answer = .locked ↔ w.Records t m ∨ (w.mutexes m).locked = false ∧ w.Roomy t m) ∧
      (s.answer ≠ .locked → s.answer = .missed ∧ w.RecordsAlike s.world) := by
  by_cases h : w.Records t m ∨ (w.mutexes m).locked = false ∧ w.Roomy t m
  · obtain ⟨events, hperform⟩ := perform_tryLock_locked key hs hi h
    exact ⟨_, hperform, iff_of_true rfl h, fun hne => absurd rfl hne⟩
  · obtain ⟨hnot, hnone⟩ := not_or.mp h
    by_cases hlocked : (w.mutexes m).locked = true
    · exact ⟨_, perform_tryLock_missed key hs hi hnot hlocked, iff_of_false (by simp) h,
        fun _ => ⟨rfl, recordsAlike_of_look rfl⟩⟩
    · have hfree := Bool.eq_false_of_not_eq_true hlocked
      have hfull : ¬ w.Roomy t m := fun hroom => hnone ⟨hfree, hroom⟩
      obtain ⟨events, hperform⟩ := perform_tryLock_undone key hs hi hnot hfull hfree
      exact ⟨_, hperform, iff_of_false (by simp) h,
        fun _ => ⟨rfl, recordsAlike_of_look hfree.symm⟩⟩

/-- Locking and trying side by side. If neither waits, the raw lock is secured by a call of either
kind, and where there is no room the one does nothing and the other takes back what it did. -/
theorem perform_alike (key : GuardKey) (hs : (w.threads t).guarded.Sound)
    (hi : (w.threads t).stage = .idle)
    (hmay : w.Records t m ∨ (w.mutexes m).locked = false) : ∃ s s',
      w.perform t (.lock m key) = some s ∧ w.perform t (.tryLock m key) = some s' ∧
      (s'.answer = .locked ↔ s.answer = .locked) ∧ s.world.Alike s'.world := by
  by_cases h : w.Records t m ∨ (w.mutexes m).locked = false ∧ w.Roomy t m
  · obtain ⟨events, hlock⟩ := perform_lock_locked key hs hi h
    obtain ⟨events', htry⟩ := perform_tryLock_locked key hs hi h
    refine ⟨_, _, hlock, htry, Iff.rfl, alike_of_calls ?_ ?_⟩
    all_goals rw [secured, secured]; split
    · rfl
    · rfl
    · exact ⟨rfl, rfl⟩
    · exact ⟨rfl, rfl⟩
  · obtain ⟨hnot, hnone⟩ := not_or.mp h
    have hfree := hmay.resolve_left hnot
    have hfull : ¬ w.Roomy t m := fun hroom => hnone ⟨hfree, hroom⟩
    obtain ⟨n, events, -, hlock⟩ := perform_lock_refused key hs hi hnot hfull
    obtain ⟨events', htry⟩ := perform_tryLock_undone key hs hi hnot hfull hfree
    refine ⟨_, _, hlock, htry, iff_of_false (by simp) (by simp), ?_⟩
    have halike : ((w.setMutex m (w.mutexes m)).setThread t (w.looked t m)).Alike
        ((w.setMutex m (w.mutexes m).won.freed).setThread t (w.looked t m)) :=
      alike_of_calls hfree.symm ⟨rfl, rfl⟩
    rwa [setMutex_self] at halike

/-- No step of a try has to wait, and the raw lock is the thread's own between them. -/
theorem Attempt.goes_on (hids : Set.InjOn (fun m => (mutexes m).1) M)
    (h : Run M (initial hash mutexes) past w) (hm : m ∈ M) (hi : (w.threads t).stage = .idle)
    (hatt : w.Attempt M t m key own u .pending) :
    u.HasRaw t m ∧ ∃ s, u.step t .proceed = some s := by
  obtain ⟨hr, -⟩ := h.kept hids
  obtain ⟨past', hrun⟩ := hatt.run h hm
  obtain ⟨hru, hku⟩ := hrun.kept hids
  obtain ⟨⟨-, hid⟩, hunder, -⟩ := hatt.underway hr hi hm
  obtain ⟨s, hstep, -⟩ := hunder.next (hr.sound t) hi hid
  exact ⟨hunder.hasRaw hru (hku m hm), s, hstep⟩

/-- **Trying agrees with locking**, and fails without a trace: so it is in every world that is
reached, for every thread between operations and every mutex in use. -/
theorem Run.try_agrees (hids : Set.InjOn (fun m => (mutexes m).1) M)
    (h : Run M (initial hash mutexes) past w) (hm : m ∈ M) (hi : (w.threads t).stage = .idle)
    (key : GuardKey) : TryAgrees M w t m key := by
  obtain ⟨hr, -⟩ := h.kept hids
  have hs := hr.sound t
  have hunder : ∀ {own u a}, w.Attempt M t m key own u a →
      w.Underway t m key own.length u a ∧ ∀ deed ∈ own, deed.Mild m :=
    fun hatt => (hatt.underway hr hi hm).2
  constructor
  case begins =>
    obtain ⟨s, hstep, -⟩ := underway_first (m := m) key hs hi
    exact ⟨s, hstep⟩
  case goesOn =>
    intro own u a hatt
    refine ⟨(hunder hatt).1.length_le, (hunder hatt).2, fun hpending => ?_⟩
    subst hpending
    exact hatt.goes_on hids h hm hi
  case locked => exact fun own u a hatt ha => (hunder hatt).1.locked_iff ha
  case handed => exact fun own u hatt => (hunder hatt).1.handed hs hi
  case missed => exact fun own u hatt => (hunder hatt).1.in_vain
  case alone => exact perform_tryLock key hs hi
  case beside => exact perform_alike key hs hi
  case refused =>
    intro hnot hfull
    obtain ⟨n, events, hcap, hperform⟩ := perform_lock_refused key hs hi hnot hfull
    exact ⟨_, n, hperform, hcap, rfl, rfl⟩
  case refusedOnly =>
    exact fun s fault hperform hfault => perform_lock_refused_only key hs hi hperform hfault

/-- Thread 0 has four bounded mutexes and no room for a fifth, which is free: trying takes its raw
lock and gives it back, and locking is refused. -/
theorem Run.try_agrees_full :
    let mutexes : MutexIx → LockId × Backing := fun m => (⟨UInt64.ofNat m⟩, .bounded)
    ∃ past w, Run {m | m < 5} (initial (fun _ => 0) mutexes) past w ∧
      TryAgrees {m | m < 5} w 0 4 (.slot 4) ∧ (w.mutexes 4).locked = false ∧ ¬ w.Records 0 4 ∧
        ¬ w.Roomy 0 4 := by
  intro mutexes
  have hids : Set.InjOn (fun m => (mutexes m).1) {m | m < 5} := by
    have hsmall : ∀ m < 5, ∀ m' < 5, (mutexes m).1 = (mutexes m').1 → m = m' := by decide
    exact fun m hm m' hm' => hsmall m hm m' hm'
  have h₀ : Run {m | m < 5} (initial (fun _ => 0) mutexes) [] _ := .begin
  have h₁ := h₀.step (by rintro _ ⟨⟩; decide) (rfl : World.step _ 0 (.lock 0 (.slot 0)) = some _)
  have h₂ := h₁.step (by rintro _ ⟨⟩) (rfl : World.step _ 0 .proceed = some _)
  have h₃ := h₂.step (by rintro _ ⟨⟩; decide) (rfl : World.step _ 0 (.lock 1 (.slot 1)) = some _)
  have h₄ := h₃.step (by rintro _ ⟨⟩) (rfl : World.step _ 0 .proceed = some _)
  have h₅ := h₄.step (by rintro _ ⟨⟩; decide) (rfl : World.step _ 0 (.lock 2 (.slot 2)) = some _)
  have h₆ := h₅.step (by rintro _ ⟨⟩) (rfl : World.step _ 0 .proceed = some _)
  have h₇ := h₆.step (by rintro _ ⟨⟩; decide) (rfl : World.step _ 0 (.lock 3 (.slot 3)) = some _)
  have h₈ := h₇.step (by rintro _ ⟨⟩) (rfl : World.step _ 0 .proceed = some _)
  exact ⟨_, _, h₈, h₈.try_agrees hids (by decide) rfl (.slot 4), rfl,
    by rw [Records]; decide +kernel, by rw [Roomy]; decide +kernel⟩

end World

end LockElision
