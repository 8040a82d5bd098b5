import LockElision.Proofs.Process.Stand

/-!
# Worlds in use

`World.Regular` is what every world has in which only the mutexes of a set `M` are used, and these
have locks of their own. `World.Moved` is a step of one thread on such a world: each mutex sees a
`Turn`, and nobody else stands otherwise than before.
-/

namespace LockElision

/-- A thread is as before in all that is not about mutex `m`, known by `lock`. -/
structure Thread.OnlyAt (th th' : Thread) (m : MutexIx) (lock : LockId) : Prop where
  running : th'.running = true
  sound : th'.guarded.Sound
  lookup : ∀ b l, l ≠ lock → (th'.guarded.ledger b).lookup l = (th.guarded.ledger b).lookup l
  guards : ∀ m', m ≠ m' → th'.guardsOf m' = th.guardsOf m'
  phase : ∀ m', m ≠ m' → th'.stage.phase m' = th.stage.phase m'

/-- A thread is as before in all that is about mutexes. -/
structure Thread.Alike (th th' : Thread) : Prop where
  running : th'.running = true
  sound : th'.guarded.Sound
  lookup : ∀ b l, (th'.guarded.ledger b).lookup l = (th.guarded.ledger b).lookup l
  guards : ∀ m, th'.guardsOf m = th.guardsOf m
  stage : th'.stage = th.stage

namespace World

variable {M : Set MutexIx} {w w' : World} {t : ThreadIx} {m : MutexIx} {mx' : Mutex} {th' : Thread}

structure Regular (M : Set MutexIx) (w : World) : Prop where
  /-- Mutexes in use have locks of their own. -/
  apart : Set.InjOn (fun m => (w.mutexes m).lock) M
  sound : ∀ t, (w.threads t).guarded.Sound
  within : ∀ t, ∀ m ∉ M, (w.threads t).guardsOf m = 0 ∧ (w.threads t).stage.phase m = .away
  asleep : ∀ t, (w.threads t).running = false → w.threads t = Thread.fresh

/-- A step of thread `t` as the mutexes in use see it. -/
structure Moved (M : Set MutexIx) (w : World) (t : ThreadIx) (w' : World) : Prop where
  regular : w'.Regular M
  others : ∀ t', t' ≠ t → w'.threads t' = w.threads t'
  identity : ∀ m, (w'.mutexes m).lock = (w.mutexes m).lock ∧
    (w'.mutexes m).backing = (w.mutexes m).backing
  turn : ∀ m ∈ M, Turn (w.mutexes m) (w.stand t m) (w'.mutexes m) (w'.stand t m)

theorem Regular.running (hr : w.Regular M) (h : w.threads t ≠ Thread.fresh) :
    (w.threads t).running = true := by
  cases hrun : (w.threads t).running with
  | true => rfl
  | false => exact absurd (hr.asleep t hrun) h

/-- One thread changes, and mutexes keep their locks. -/
theorem Regular.update (hr : w.Regular M)
    (hid : ∀ m, (w'.mutexes m).lock = (w.mutexes m).lock)
    (hothers : ∀ t', t' ≠ t → w'.threads t' = w.threads t')
    (hasleep : (w'.threads t).running = false → w'.threads t = Thread.fresh)
    (hsound : (w'.threads t).guarded.Sound)
    (hwithin : ∀ m ∉ M, (w'.threads t).guardsOf m = 0 ∧ (w'.threads t).stage.phase m = .away) :
    w'.Regular M := by
  refine ⟨fun m₁ h₁ m₂ h₂ he => ?_, fun t' => ?_, fun t' m hm => ?_, fun t' hrun => ?_⟩
  · exact hr.apart h₁ h₂ (((hid m₁).symm.trans he).trans (hid m₂))
  all_goals by_cases ht : t' = t
  · rw [ht]; exact hsound
  · rw [hothers t' ht]; exact hr.sound t'
  · rw [ht]; exact hwithin m hm
  · rw [hothers t' ht]; exact hr.within t' m hm
  · rw [ht] at hrun ⊢; exact hasleep hrun
  · rw [hothers t' ht] at hrun ⊢; exact hr.asleep t' hrun

@[simp] theorem threads_setThread_self (w : World) (t : ThreadIx) (th : Thread) :
    (w.setThread t th).threads t = th := if_pos rfl

theorem threads_setThread_ne {t' : ThreadIx} (h : t' ≠ t) (w : World) (th : Thread) :
    (w.setThread t th).threads t' = w.threads t' := if_neg h

@[simp] theorem stand_setThread (w : World) (t : ThreadIx) (th : Thread) (m : MutexIx) :
    (w.setThread t th).stand t m = th.stand (w.mutexes m) m := by
  rw [stand, threads_setThread_self]; rfl

@[simp] theorem mutexes_setMutex_self (w : World) (m : MutexIx) (mx : Mutex) :
    (w.setMutex m mx).mutexes m = mx := if_pos rfl

theorem mutexes_setMutex_ne {m' : MutexIx} (h : m' ≠ m) (w : World) (mx : Mutex) :
    (w.setMutex m mx).mutexes m' = w.mutexes m' := if_neg h

theorem setMutex_self (w : World) (m : MutexIx) : w.setMutex m (w.mutexes m) = w := by
  have h : (w.setMutex m (w.mutexes m)).mutexes = w.mutexes := by
    funext m'
    by_cases he : m' = m
    · subst he; exact mutexes_setMutex_self w _ _
    · exact mutexes_setMutex_ne he w _
  exact congrArg (fun f => { w with mutexes := f }) h

theorem setMutex_setMutex (w : World) (m : MutexIx) (mx mx' : Mutex) :
    (w.setMutex m mx).setMutex m mx' = w.setMutex m mx' := by
  refine congrArg (fun f => { w with mutexes := f }) (funext fun m' => ?_)
  by_cases he : m' = m
  · simp [he]
  · simp [setMutex, he]

theorem setThread_setThread (w : World) (t : ThreadIx) (th th' : Thread) :
    (w.setThread t th).setThread t th' = w.setThread t th' := by
  refine congrArg (fun f => { w with threads := f }) (funext fun t' => ?_)
  by_cases he : t' = t
  · simp [he]
  · simp [setThread, he]

theorem Moved.raw (hr : w.Regular M) (hm : m ∈ M)
    (h : (w.threads t).OnlyAt th' m (w.mutexes m).lock)
    (hid : mx'.lock = (w.mutexes m).lock ∧ mx'.backing = (w.mutexes m).backing)
    (hturn : Turn (w.mutexes m) (w.stand t m) mx' (th'.stand (w.mutexes m) m)) :
    w.Moved M t ((w.setMutex m mx').setThread t th') := by
  have hid' : ∀ m', ((w.setMutex m mx').mutexes m').lock = (w.mutexes m').lock ∧
      ((w.setMutex m mx').mutexes m').backing = (w.mutexes m').backing := by
    intro m'
    by_cases he : m' = m
    · rw [he, mutexes_setMutex_self]; exact hid
    · rw [mutexes_setMutex_ne he]; exact ⟨rfl, rfl⟩
  have hothers : ∀ t', t' ≠ t → ((w.setMutex m mx').setThread t th').threads t' = w.threads t' :=
    fun t' hne => threads_setThread_ne hne _ th'
  refine ⟨hr.update (fun m' => (hid' m').1) hothers (fun hrun => ?_) ?_ fun m' hm' => ?_, hothers,
    hid', fun m' hm' => ?_⟩
  · rw [threads_setThread_self, h.running] at hrun; cases hrun
  · rw [threads_setThread_self]; exact h.sound
  · have hne : m ≠ m' := fun he => hm' (he ▸ hm)
    rw [threads_setThread_self, h.guards m' hne, h.phase m' hne]
    exact hr.within t m' hm'
  · rw [stand_setThread, Thread.stand_congr (hid' m').1 (hid' m').2]
    show Turn _ _ ((w.setMutex m mx').mutexes m') _
    by_cases he : m' = m
    · rw [he, mutexes_setMutex_self]
      exact hturn
    · have hne : m ≠ m' := Ne.symm he
      have hl : (w.mutexes m').lock ≠ (w.mutexes m).lock := fun hl => he (hr.apart hm' hm hl)
      rw [mutexes_setMutex_ne he, Thread.stand, h.lookup _ _ hl, h.guards m' hne, h.phase m' hne]
      exact .still

theorem Moved.at (hr : w.Regular M) (hm : m ∈ M)
    (h : (w.threads t).OnlyAt th' m (w.mutexes m).lock)
    (hturn : Turn (w.mutexes m) (w.stand t m) (w.mutexes m) (th'.stand (w.mutexes m) m)) :
    w.Moved M t (w.setThread t th') := by
  have hmoved := Moved.raw hr hm h ⟨rfl, rfl⟩ hturn
  rwa [setMutex_self] at hmoved

theorem Moved.alike (hr : w.Regular M) (h : (w.threads t).Alike th') :
    w.Moved M t (w.setThread t th') := by
  have hothers : ∀ t', t' ≠ t → (w.setThread t th').threads t' = w.threads t' :=
    fun t' hne => threads_setThread_ne hne w th'
  refine ⟨hr.update (fun _ => rfl) hothers (fun hrun => ?_) ?_ fun m hm => ?_, hothers,
    fun _ => ⟨rfl, rfl⟩, fun m _ => ?_⟩
  · rw [threads_setThread_self, h.running] at hrun; cases hrun
  · rw [threads_setThread_self]; exact h.sound
  · rw [threads_setThread_self, h.guards m, h.stage]; exact hr.within t m hm
  · rw [stand_setThread, Thread.stand, h.lookup, h.guards, h.stage]
    exact .still

theorem Regular.exit (hr : w.Regular M) (t : ThreadIx) :
    (w.setThread t Thread.fresh).Regular M := by
  refine hr.update (t := t) (fun _ => rfl) (fun t' hne => threads_setThread_ne hne w _) ?_ ?_ ?_
  all_goals rw [threads_setThread_self]
  · exact fun _ => rfl
  · exact Shelf.sound_fresh
  · exact fun m _ => ⟨rfl, rfl⟩

theorem Moved.same (hr : w.Regular M) (ht : w'.threads = w.threads)
    (hm : w'.mutexes = w.mutexes) : w.Moved M t w' := by
  refine ⟨⟨?_, ?_, ?_, ?_⟩, fun t' _ => by rw [ht], fun m => by rw [hm]; exact ⟨rfl, rfl⟩,
    fun m _ => ?_⟩
  · rw [hm]; exact hr.apart
  · rw [ht]; exact hr.sound
  · rw [ht]; exact hr.within
  · rw [ht]; exact hr.asleep
  · have hs : w'.stand t m = w.stand t m := by rw [stand, stand, ht, hm]
    rw [hs, hm]; exact .still

end World

end LockElision
