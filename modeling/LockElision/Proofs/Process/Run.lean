import LockElision.Process.Session
import LockElision.Proofs.Process.Steps

/-!
# Runs of many threads

A `Run` interleaves steps of any number of threads in any order and remembers them, the newest
first. Running a closure under a mutex is a `lock` whose guard the call keeps, whatever steps the
closure takes, and a `drop`, whether the closure returned or broke off; what the real operation of a
shield open to everyone does is further steps of its thread.

In the worlds a run passes through a thread may own a mutex, or be midway: the raw lock is taken and
not yet recorded, or the record is gone and the raw lock not yet given back.
-/

namespace LockElision

/-- One step of a run: in which world, whose, what, and what came of it. -/
structure Deed where
  before : World
  thread : ThreadIx
  action : Action
  result : Step

/-- The worlds that are reached from `start` when only the mutexes of `M` are used. -/
inductive World.Run (M : Set MutexIx) (start : World) : List Deed → World → Prop where
  | begin : Run M start [] start
  /-- A thread is running before it first does anything here. -/
  | wake {past : List Deed} {w : World} (t : ThreadIx) : Run M start past w →
      Run M start past (w.awaken t)
  | step {past : List Deed} {w : World} {t : ThreadIx} {action : Action} {s : Step} :
      Run M start past w → (∀ m, action.mutex? = some m → m ∈ M) →
      w.step t action = some s → Run M start (⟨w, t, action, s⟩ :: past) s.world

namespace World

variable {M : Set MutexIx} {w w' : World} {t : ThreadIx} {m : MutexIx}

/-- Every step of a run was taken in a world that the run had reached. -/
theorem Run.deed {start : World} {past : List Deed} (h : Run M start past w) {deed : Deed}
    (hd : deed ∈ past) : (∃ past', Run M start past' deed.before) ∧
      (∀ m, deed.action.mutex? = some m → m ∈ M) ∧
      deed.before.step deed.thread deed.action = some deed.result := by
  induction h with
  | begin => cases hd
  | wake t _ ih => exact ih hd
  | step hrun hm hs ih =>
    cases hd with
    | head => exact ⟨⟨_, hrun⟩, hm, hs⟩
    | tail _ hd => exact ih hd

/-- The thread's guard directory has the mutex. -/
def Records (w : World) (t : ThreadIx) (m : MutexIx) : Prop := (w.guardDepth t m).1.isSome = true

/-- The mutex is recorded, and that is not just a level reserved while the raw lock is awaited. -/
structure Owns (w : World) (t : ThreadIx) (m : MutexIx) : Prop where
  records : w.Records t m
  taken : ∀ key, (w.threads t).stage ≠ .taking m key

/-- The raw lock is taken, but either not recorded yet or not recorded any more. -/
def Midway (w : World) (t : ThreadIx) (m : MutexIx) : Prop :=
  ((∃ key, (w.threads t).stage = .recording m key) ∧ ¬ w.Records t m) ∨
    (w.threads t).stage = .undoing m ∨ (w.threads t).stage = .leaving m

/-- Some thread ended as an owner of the mutex. -/
def Abandoned (past : List Deed) (m : MutexIx) : Prop :=
  ∃ deed ∈ past, deed.action = .exit ∧ deed.before.Owns deed.thread m

theorem abandoned_cons {deed : Deed} {past : List Deed} : Abandoned (deed :: past) m ↔
    (deed.action = .exit ∧ deed.before.Owns deed.thread m) ∨ Abandoned past m := by
  simp [Abandoned]

/-! ## Owners and stands -/

theorem records_iff (hs : (w.threads t).guarded.Sound) :
    w.Records t m ↔ 0 < (w.stand t m).depth := by
  obtain ⟨shelf, he, -⟩ := guardDepth_law (m := m) hs
  rw [Records, he]
  cases hl : (w.guardLedger t m).lookup (w.mutexes m).lock with
  | none => rw [stand, Thread.stand_eq hl]; simp
  | some n =>
    rw [stand, Thread.stand_eq hl]
    simpa [Nat.pos_iff_ne_zero] using Nat.one_le_iff_ne_zero.mp (Shelf.depth_pos hs hl)

theorem owns_iff (hs : (w.threads t).guarded.Sound) (hw : (w.stand t m).Settled) :
    w.Owns t m ↔ 0 < (w.stand t m).guards := by
  have htaken : (∀ key, (w.threads t).stage ≠ .taking m key) ↔ (w.stand t m).phase ≠ .taking := by
    rw [← not_exists, ← (Stage.phase_eq ..).1]; rfl
  rw [hw.guards_pos, ← records_iff hs, ← htaken]
  exact ⟨fun h => ⟨h.records, h.taken⟩, fun ⟨h, h'⟩ => ⟨h, h'⟩⟩

end World

end LockElision
