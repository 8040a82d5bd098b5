import LockElision.Proofs.Process.Run

/-!
# Parts of the world

A step of a thread is about one part of the world: one of the thread's directories that are open to
everyone, or the mutexes of one backing, with all that threads keep for them. The end of a thread
and the pool setting are about no part in particular.

`World.Echoes keep w v` says that `v` is what becomes of `w` when only the parts in `keep` are ever
touched: these are the same in both, and in `v` nothing is left of the others. A step inside `keep`
comes out the same in both worlds (`Echoes.step`), and a step outside it is not noticed
(`Echoes.unseen_step`).
-/

namespace LockElision

inductive Part where
  /-- A directory of a thread's own, open to everyone. -/
  | shared (t : ThreadIx) (backing : Backing)
  /-- Raw locks, guards and guard directories, for one backing. -/
  | mutexes (backing : Backing)
  deriving DecidableEq

/-- One directory of the pair; a pooled one may not have been made yet. -/
def Shelf.directory (shelf : Shelf) : Backing → SlotTable tableCapacity ⊕ Option PooledDirectory
  | .bounded => .inl shelf.bounded
  | .pooled => .inr shelf.pooled

def Stage.mutex? : Stage → Option MutexIx
  | idle => none
  | taking m _ | recording m _ | undoing m | leaving m => some m

/-- What a stage is to those who see some mutexes only. -/
def Stage.seen (see : MutexIx → Bool) (stage : Stage) : Stage :=
  if stage.mutex?.all see then stage else .idle

/-- The guards of the mutexes that are seen. -/
def seenGuards (see : MutexIx → Bool) (guards : List (GuardKey × MutexIx)) :
    List (GuardKey × MutexIx) :=
  guards.filter fun guard => see guard.2

/-- The directory an action uses, if it is one that is open to everyone. -/
def Action.shared? : Action → Option Backing
  | acquire b _ _ | release b _ _ | rollBack b _ | sharedDepth b _ | sharedCount b => some b
  | sharedUsage => some .pooled
  | _ => none

/-- The part an action of a thread is about. -/
def World.part? (w : World) (t : ThreadIx) : Action → Option Part
  | .proceed => (w.threads t).stage.mutex?.map fun m => .mutexes (w.mutexes m).backing
  | .lock m _ | .tryLock m _ | .depth m => some (.mutexes (w.mutexes m).backing)
  | .drop key | .forget key =>
    ((w.threads t).guard? key).map fun m => .mutexes (w.mutexes m).backing
  | action => action.shared?.map (.shared t)

variable {keep : Part → Bool} {see : MutexIx → Bool}

structure Thread.Echoes (keep : Part → Bool) (see : MutexIx → Bool) (t : ThreadIx)
    (th th' : Thread) : Prop where
  shared : ∀ b, keep (.shared t b) = true → th'.shared.directory b = th.shared.directory b
  guarded : ∀ b, keep (.mutexes b) = true → th'.guarded.directory b = th.guarded.directory b
  guards : th'.guards = seenGuards see th.guards
  forgotten : th'.forgotten = th.forgotten.filter see
  stage : th'.stage = th.stage.seen see

namespace World

/-- Whether a mutex is in one of the parts. -/
def sees (keep : Part → Bool) (w : World) (m : MutexIx) : Bool :=
  keep (.mutexes (w.mutexes m).backing)

structure Echoes (keep : Part → Bool) (w v : World) : Prop where
  hash : v.hash = w.hash
  setting : v.setting = w.setting
  identity : ∀ m, (v.mutexes m).lock = (w.mutexes m).lock ∧
    (v.mutexes m).backing = (w.mutexes m).backing
  /-- The raw lock and all calls that reached it. -/
  mutexes : ∀ m, w.sees keep m = true → v.mutexes m = w.mutexes m
  threads : ∀ t, (w.threads t).Echoes keep (w.sees keep) t (v.threads t)

end World

/-- The same came of a step in both worlds. -/
structure Step.Echoes (keep : Part → Bool) (s s' : Step) : Prop where
  world : s.world.Echoes keep s'.world
  answer : s'.answer = s.answer
  events : s'.events = s.events

namespace Shelf

variable {α : Type} {b b' : Backing} {shelf shelf' : Shelf}

theorem use_congr (make : PooledDirectory) (f : {D : Type} → [Inspectable D] → D → α × D)
    (h : shelf'.directory b = shelf.directory b) :
    (shelf'.use make b f).1 = (shelf.use make b f).1 ∧
      (shelf'.use make b f).2.directory b = (shelf.use make b f).2.directory b := by
  cases b with
  | bounded =>
    have h : shelf'.bounded = shelf.bounded := Sum.inl.inj h
    simp only [use, directory, h, and_self]
  | pooled =>
    have h : shelf'.pooled = shelf.pooled := Sum.inr.inj h
    simp only [use, directory, openPooled, h, and_self]

theorem use_directory_ne (make : PooledDirectory) (f : {D : Type} → [Inspectable D] → D → α × D)
    (h : b' ≠ b) : (shelf.use make b f).2.directory b' = shelf.directory b' := by
  cases b <;> cases b' <;> first | exact absurd rfl h | rfl

end Shelf

namespace Stage

theorem seen_of_see {stage : Stage} {m : MutexIx} (h : stage.mutex? = some m)
    (hm : see m = true) : stage.seen see = stage := by
  rw [seen, h]
  exact if_pos hm

theorem seen_of_unseen {stage : Stage} {m : MutexIx} (h : stage.mutex? = some m)
    (hm : see m = false) : stage.seen see = idle := by
  rw [seen, h]
  exact if_neg (by simp [hm])

end Stage

section Guards

variable {key : GuardKey} {m : MutexIx} {l l' : List (GuardKey × MutexIx)}

theorem seenGuards_append (see : MutexIx → Bool) (l l' : List (GuardKey × MutexIx)) :
    seenGuards see (l ++ l') = seenGuards see l ++ seenGuards see l' :=
  List.filter_append ..

theorem seenGuards_cons (hm : see m = true) (key : GuardKey) (l : List (GuardKey × MutexIx)) :
    seenGuards see ((key, m) :: l) = (key, m) :: seenGuards see l :=
  List.filter_cons_of_pos (p := fun guard : GuardKey × MutexIx => see guard.2) hm

theorem seenGuards_cons_unseen (hm : see m = false) (key : GuardKey)
    (l : List (GuardKey × MutexIx)) : seenGuards see ((key, m) :: l) = seenGuards see l :=
  List.filter_cons_of_neg (p := fun guard : GuardKey × MutexIx => see guard.2) (by simp [hm])

theorem eraseP_guard (h : ∀ p ∈ l, (key != p.1) = true) :
    (l ++ (key, m) :: l').eraseP (·.1 == key) = l ++ l' := by
  rw [List.eraseP_append_right, List.eraseP_cons_of_pos (by simp)]
  intro p hp hk
  have hne := h p hp
  rw [beq_iff_eq.mp hk] at hne
  simp at hne

theorem mem_of_seen {p : GuardKey × MutexIx} (h : p ∈ seenGuards see l) : p ∈ l :=
  (List.mem_filter.mp h).1

theorem lookup_seenGuards (h : l.lookup key = some m) (hm : see m = true) :
    (seenGuards see l).lookup key = some m := by
  obtain ⟨l₁, l₂, rfl, hne⟩ := List.lookup_eq_some_iff.mp h
  rw [seenGuards_append, seenGuards_cons hm]
  exact List.lookup_eq_some_iff.mpr ⟨_, _, rfl, fun p hp => hne p (mem_of_seen hp)⟩

theorem seenGuards_eraseP (h : l.lookup key = some m) (hm : see m = true) :
    seenGuards see (l.eraseP (·.1 == key)) = (seenGuards see l).eraseP (·.1 == key) := by
  obtain ⟨l₁, l₂, rfl, hne⟩ := List.lookup_eq_some_iff.mp h
  rw [eraseP_guard hne, seenGuards_append, seenGuards_append, seenGuards_cons hm,
    eraseP_guard fun p hp => hne p (mem_of_seen hp)]

theorem seenGuards_eraseP_unseen (h : l.lookup key = some m) (hm : see m = false) :
    seenGuards see (l.eraseP (·.1 == key)) = seenGuards see l := by
  obtain ⟨l₁, l₂, rfl, hne⟩ := List.lookup_eq_some_iff.mp h
  rw [eraseP_guard hne, seenGuards_append, seenGuards_append, seenGuards_cons_unseen hm]

end Guards

namespace Thread.Echoes

variable {t : ThreadIx} {th th' : Thread} {key : GuardKey} {m : MutexIx}

theorem fresh (keep : Part → Bool) (see : MutexIx → Bool) (t : ThreadIx) :
    Thread.fresh.Echoes keep see t Thread.fresh :=
  ⟨fun _ _ => rfl, fun _ _ => rfl, rfl, rfl, rfl⟩

theorem guard? (h : th.Echoes keep see t th') (hg : th.guard? key = some m) (hm : see m = true) :
    th'.guard? key = some m := by
  rw [Thread.guard?, h.guards]
  exact lookup_seenGuards hg hm

theorem begin (h : th.Echoes keep see t th') {stage : Stage} (hstage : stage.mutex? = some m)
    (hm : see m = true) :
    ({ th with stage := stage } : Thread).Echoes keep see t { th' with stage := stage } :=
  ⟨h.shared, h.guarded, h.guards, h.forgotten, (Stage.seen_of_see hstage hm).symm⟩

theorem finish (h : th.Echoes keep see t th') :
    ({ th with stage := .idle } : Thread).Echoes keep see t { th' with stage := .idle } :=
  ⟨h.shared, h.guarded, h.guards, h.forgotten, rfl⟩

theorem hold (h : th.Echoes keep see t th') (key : GuardKey) (hm : see m = true) :
    (th.hold key m).Echoes keep see t (th'.hold key m) :=
  ⟨h.shared, h.guarded, by rw [Thread.hold, Thread.hold, seenGuards_cons hm, h.guards],
    h.forgotten, rfl⟩

theorem letGo (h : th.Echoes keep see t th') (hg : th.guard? key = some m) (hm : see m = true) :
    (th.letGo key).Echoes keep see t (th'.letGo key) :=
  ⟨h.shared, h.guarded, by rw [Thread.letGo, Thread.letGo, seenGuards_eraseP hg hm, h.guards],
    h.forgotten, h.stage⟩

theorem letGo_unseen (h : th.Echoes keep see t th') (hg : th.guard? key = some m)
    (hm : see m = false) : (th.letGo key).Echoes keep see t th' :=
  ⟨h.shared, h.guarded, by rw [Thread.letGo, seenGuards_eraseP_unseen hg hm, h.guards],
    h.forgotten, h.stage⟩

theorem hold_unseen (h : th.Echoes keep see t th') (key : GuardKey) (hm : see m = false)
    (hidle : th'.stage = .idle) : (th.hold key m).Echoes keep see t th' :=
  ⟨h.shared, h.guarded, by rw [Thread.hold, seenGuards_cons_unseen hm, h.guards], h.forgotten,
    hidle⟩

theorem begin_unseen (h : th.Echoes keep see t th') (hidle : th'.stage = .idle) {stage : Stage}
    (hstage : stage.seen see = .idle) :
    ({ th with stage := stage } : Thread).Echoes keep see t th' :=
  ⟨h.shared, h.guarded, h.guards, h.forgotten, hidle.trans hstage.symm⟩

end Thread.Echoes

namespace World

variable {w v : World} {t : ThreadIx} {m : MutexIx} {mx : Mutex} {th th' : Thread}

namespace Echoes

theorem newPooled (h : w.Echoes keep v) : v.newPooled = w.newPooled := by
  rw [World.newPooled, World.newPooled, inForce, inForce, h.hash, h.setting]

theorem sees (h : w.Echoes keep v) : v.sees keep = w.sees keep := by
  funext m
  rw [World.sees, World.sees, (h.identity m).2]

theorem setThread (h : w.Echoes keep v) (ht : th.Echoes keep (w.sees keep) t th') :
    (w.setThread t th).Echoes keep (v.setThread t th') := by
  refine ⟨h.hash, h.setting, h.identity, h.mutexes, fun t' => ?_⟩
  by_cases he : t' = t
  · subst he
    rw [threads_setThread_self, threads_setThread_self]
    exact ht
  · rw [threads_setThread_ne he, threads_setThread_ne he]
    exact h.threads t'

/-- A change to a thread that leaves nothing behind in the echo. -/
theorem setThread_unseen (h : w.Echoes keep v)
    (ht : th.Echoes keep (w.sees keep) t (v.threads t)) : (w.setThread t th).Echoes keep v := by
  refine ⟨h.hash, h.setting, h.identity, h.mutexes, fun t' => ?_⟩
  by_cases he : t' = t
  · subst he
    rw [threads_setThread_self]
    exact ht
  · rw [threads_setThread_ne he]
    exact h.threads t'

theorem sees_setMutex (hid : mx.backing = (w.mutexes m).backing) :
    (w.setMutex m mx).sees keep = w.sees keep := by
  funext m'
  by_cases he : m' = m
  · subst he
    rw [World.sees, World.sees, mutexes_setMutex_self, hid]
  · rw [World.sees, World.sees, mutexes_setMutex_ne he]

theorem setMutex (h : w.Echoes keep v) (hid : mx.backing = (w.mutexes m).backing) :
    (w.setMutex m mx).Echoes keep (v.setMutex m mx) := by
  refine ⟨h.hash, h.setting, fun m' => ?_, fun m' hm' => ?_, fun t => ?_⟩
  · by_cases he : m' = m
    · rw [he, mutexes_setMutex_self, mutexes_setMutex_self]; exact ⟨rfl, rfl⟩
    · rw [mutexes_setMutex_ne he, mutexes_setMutex_ne he]; exact h.identity m'
  · by_cases he : m' = m
    · rw [he, mutexes_setMutex_self, mutexes_setMutex_self]
    · rw [mutexes_setMutex_ne he, mutexes_setMutex_ne he]
      exact h.mutexes m' (by rw [← hm', sees_setMutex hid])
  · rw [sees_setMutex hid]; exact h.threads t

theorem setMutex_unseen (h : w.Echoes keep v) (hm : w.sees keep m = false)
    (hlock : mx.lock = (w.mutexes m).lock) (hid : mx.backing = (w.mutexes m).backing) :
    (w.setMutex m mx).Echoes keep v := by
  refine ⟨h.hash, h.setting, fun m' => ?_, fun m' hm' => ?_, fun t => ?_⟩
  · by_cases he : m' = m
    · rw [he, mutexes_setMutex_self, hlock, hid]; exact h.identity m
    · rw [mutexes_setMutex_ne he]; exact h.identity m'
  · rw [sees_setMutex hid] at hm'
    have he : m' ≠ m := fun he => by rw [he, hm] at hm'; cases hm'
    rw [mutexes_setMutex_ne he]
    exact h.mutexes m' hm'
  · rw [sees_setMutex hid]; exact h.threads t

theorem update (h : w.Echoes keep v) (hid : mx.backing = (w.mutexes m).backing)
    (ht : th.Echoes keep (w.sees keep) t th') :
    ((w.setMutex m mx).setThread t th).Echoes keep ((v.setMutex m mx).setThread t th') :=
  (h.setMutex hid).setThread (by rwa [sees_setMutex hid])

theorem update_unseen (h : w.Echoes keep v) (hm : w.sees keep m = false)
    (hlock : mx.lock = (w.mutexes m).lock) (hid : mx.backing = (w.mutexes m).backing)
    (ht : th.Echoes keep (w.sees keep) t (v.threads t)) :
    ((w.setMutex m mx).setThread t th).Echoes keep v :=
  (h.setMutex_unseen hm hlock hid).setThread_unseen (by rwa [sees_setMutex hid])

end Echoes

end World

end LockElision
