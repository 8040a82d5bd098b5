import LockElision.Proofs.Process.Guards

/-!
# Where a thread stands with a mutex

What one thread has to do with one mutex comes down to a `Stand`: the depth its guard directory
records, the guards it was handed and has not dropped, and which part of an operation on that mutex
it is in the middle of. `Turn` lists everything one step of the thread can do to its stand and to
the raw lock. A stand is `Settled` when record and guards tell the same story; then the thread has
the raw lock exactly if it `Holds` it, and `Turn.claims` shows both survive every step.
-/

namespace LockElision

/-- The part of an operation on one mutex that a thread is in the middle of. -/
inductive Phase where
  | away
  | taking
  | recording
  | undoing
  | leaving
  deriving DecidableEq

/-- What the stage of a thread is to one mutex. -/
def Stage.phase (m : MutexIx) : Stage → Phase
  | idle => .away
  | taking m' _ => if m' = m then .taking else .away
  | recording m' _ => if m' = m then .recording else .away
  | undoing m' => if m' = m then .undoing else .away
  | leaving m' => if m' = m then .leaving else .away

@[simp] theorem Stage.phase_taking (m : MutexIx) (key : GuardKey) :
    (taking m key).phase m = .taking :=
  if_pos rfl

@[simp] theorem Stage.phase_recording (m : MutexIx) (key : GuardKey) :
    (recording m key).phase m = .recording :=
  if_pos rfl

@[simp] theorem Stage.phase_undoing (m : MutexIx) : (undoing m).phase m = .undoing := if_pos rfl

@[simp] theorem Stage.phase_leaving (m : MutexIx) : (leaving m).phase m = .leaving := if_pos rfl

theorem Stage.phase_eq (stage : Stage) (m : MutexIx) :
    (stage.phase m = .taking ↔ ∃ key, stage = .taking m key) ∧
    (stage.phase m = .recording ↔ ∃ key, stage = .recording m key) ∧
    (stage.phase m = .undoing ↔ stage = .undoing m) ∧
    (stage.phase m = .leaving ↔ stage = .leaving m) := by
  cases stage <;> simp [phase] <;> split <;> simp_all

theorem Stage.phase_of_ne {stage : Stage} {m m' : MutexIx} (h : stage.phase m ≠ .away)
    (hne : m ≠ m') : stage.phase m' = .away := by
  cases stage with
  | idle => rfl
  | taking m₀ _ | recording m₀ _ | undoing m₀ | leaving m₀ =>
    by_cases he : m₀ = m
    · exact if_neg (he ▸ hne)
    · exact absurd (if_neg he) h

structure Stand where
  depth : Nat
  guards : Nat
  phase : Phase

/-- The guards of a mutex that were handed out and not dropped: those at hand, those forgotten. -/
def Thread.guardsOf (th : Thread) (m : MutexIx) : Nat :=
  th.guards.countP (·.2 == m) + th.forgotten.count m

def Thread.stand (th : Thread) (mx : Mutex) (m : MutexIx) : Stand where
  depth := ((th.guarded.ledger mx.backing).lookup mx.lock).getD 0
  guards := th.guardsOf m
  phase := th.stage.phase m

def World.stand (w : World) (t : ThreadIx) (m : MutexIx) : Stand :=
  (w.threads t).stand (w.mutexes m) m

namespace Mutex

/-- The raw lock is free, and a raw lock call returns with it. -/
def taken (mx : Mutex) : Mutex := { mx with locked := true, lockCalls := mx.lockCalls + 1 }

/-- A raw try succeeds. -/
def won (mx : Mutex) : Mutex := { mx with locked := true, tryCalls := mx.tryCalls + 1 }

/-- A raw try fails. -/
def missed (mx : Mutex) : Mutex := { mx with tryCalls := mx.tryCalls + 1 }

def freed (mx : Mutex) : Mutex := { mx with locked := false, unlockCalls := mx.unlockCalls + 1 }

end Mutex

/-- What a step of a thread, its end apart, may do to a mutex and to the thread's stand with it. -/
inductive Turn : Mutex → Stand → Mutex → Stand → Prop where
  | still {mx : Mutex} {s : Stand} : Turn mx s mx s
  | reserve {mx : Mutex} {g : Nat} : Turn mx ⟨0, g, .away⟩ mx ⟨1, g, .taking⟩
  | nest {mx : Mutex} {n g : Nat} : 0 < n → Turn mx ⟨n, g, .away⟩ mx ⟨n + 1, g + 1, .away⟩
  | take {mx : Mutex} {n g : Nat} : mx.locked = false →
      Turn mx ⟨n, g, .taking⟩ mx.taken ⟨n, g + 1, .away⟩
  | tryNested {mx : Mutex} {n g : Nat} : 0 < n → Turn mx ⟨n, g, .away⟩ mx ⟨n, g, .recording⟩
  | tryWon {mx : Mutex} {g : Nat} : mx.locked = false →
      Turn mx ⟨0, g, .away⟩ mx.won ⟨0, g, .recording⟩
  | tryMissed {mx : Mutex} {s : Stand} : mx.locked = true → Turn mx s mx.missed s
  | record {mx : Mutex} {n g : Nat} : Turn mx ⟨n, g, .recording⟩ mx ⟨n + 1, g + 1, .away⟩
  | spill {mx : Mutex} {g : Nat} : Turn mx ⟨0, g, .recording⟩ mx ⟨0, g, .undoing⟩
  | undo {mx : Mutex} {n g : Nat} : Turn mx ⟨n, g, .undoing⟩ mx.freed ⟨n, g, .away⟩
  | dropNested {mx : Mutex} {n g : Nat} : 0 < n →
      Turn mx ⟨n + 1, g + 1, .away⟩ mx ⟨n, g, .away⟩
  | dropLast {mx : Mutex} {g : Nat} : Turn mx ⟨1, g + 1, .away⟩ mx ⟨0, g, .leaving⟩
  | dropOrphan {mx : Mutex} {g : Nat} : Turn mx ⟨0, g + 1, .away⟩ mx ⟨0, g, .away⟩
  | leave {mx : Mutex} {n g : Nat} : Turn mx ⟨n, g, .leaving⟩ mx.freed ⟨n, g, .away⟩

namespace Stand

/-- Every level on record has its guard, but for one that is reserved while the raw lock is awaited;
a thread that awaits the raw lock, or is about to give it back, has no guard. -/
def Settled : Stand → Prop
  | ⟨n, g, .away⟩ | ⟨n, g, .recording⟩ => n = g
  | ⟨n, g, .taking⟩ => n = 1 ∧ g = 0
  | ⟨n, g, .undoing⟩ | ⟨n, g, .leaving⟩ => n = 0 ∧ g = 0

/-- The thread has the raw lock. -/
def Holds : Stand → Prop
  | ⟨_, g, .away⟩ => 0 < g
  | ⟨_, _, .taking⟩ => False
  | _ => True

theorem Settled.guards_pos {s : Stand} (hs : s.Settled) :
    0 < s.guards ↔ 0 < s.depth ∧ s.phase ≠ .taking := by
  obtain ⟨n, g, phase⟩ := s
  cases phase with
  | away | recording => obtain rfl : n = g := hs; simp
  | taking | undoing | leaving => obtain ⟨rfl, rfl⟩ := hs; simp

theorem Settled.holds_iff {s : Stand} (hs : s.Settled) :
    s.Holds ↔ 0 < s.guards ∨ s.phase = .recording ∨ s.phase = .undoing ∨ s.phase = .leaving := by
  obtain ⟨n, g, phase⟩ := s
  cases phase with
  | away | recording | undoing | leaving => simp [Holds]
  | taking => obtain ⟨rfl, rfl⟩ := hs; simp [Holds]

end Stand

namespace Turn

variable {mx mx' : Mutex} {s s' : Stand} {others : Prop}

theorem settled (h : Turn mx s mx' s') (hs : s.Settled) : s'.Settled := by
  cases h with
  | still => exact hs
  | reserve => exact ⟨rfl, hs.symm⟩
  | nest => exact congrArg (· + 1) hs
  | take => obtain ⟨rfl, rfl⟩ := hs; rfl
  | tryNested => exact hs
  | tryWon => exact hs
  | tryMissed => exact hs
  | record => exact congrArg (· + 1) hs
  | spill => exact ⟨rfl, hs.symm⟩
  | undo => obtain ⟨rfl, rfl⟩ := hs; rfl
  | dropNested => exact Nat.succ.inj hs
  | dropLast => exact ⟨rfl, (Nat.succ.inj hs).symm⟩
  | dropOrphan => cases hs
  | leave => obtain ⟨rfl, rfl⟩ := hs; rfl

/-- The raw lock is taken exactly if the thread itself holds it or others do, and never do both:
a step keeps this, whatever the others are. -/
theorem claims (h : Turn mx s mx' s') (hs : s.Settled)
    (hraw : mx.locked = true ↔ s.Holds ∨ others) (hone : s.Holds → ¬ others) :
    (mx'.locked = true ↔ s'.Holds ∨ others) ∧ (s'.Holds → ¬ others) := by
  cases h with
  | still => exact ⟨hraw, hone⟩
  | @reserve g =>
    obtain rfl : 0 = g := hs
    simpa [Stand.Holds] using hraw
  | @nest n g hn =>
    obtain rfl : n = g := hs
    simp only [Stand.Holds, hn, Nat.succ_pos] at hraw hone ⊢
    exact ⟨hraw, hone⟩
  | take hfree =>
    have hnone : ¬ others := fun ho => by simp [hraw.mpr (.inr ho)] at hfree
    simp [Stand.Holds, Mutex.taken, hnone]
  | @tryNested n g hn =>
    obtain rfl : n = g := hs
    simp only [Stand.Holds, hn] at hraw hone ⊢
    exact ⟨hraw, hone⟩
  | tryWon hfree =>
    have hnone : ¬ others := fun ho => by simp [hraw.mpr (.inr ho)] at hfree
    simp [Stand.Holds, Mutex.won, hnone]
  | tryMissed => exact ⟨hraw, hone⟩
  | record =>
    simp only [Stand.Holds, Nat.succ_pos] at hraw hone ⊢
    exact ⟨hraw, hone⟩
  | spill => exact ⟨hraw, hone⟩
  | undo =>
    obtain ⟨rfl, rfl⟩ := hs
    simpa [Stand.Holds, Mutex.freed] using hone
  | @dropNested n g hn =>
    obtain rfl : n = g := Nat.succ.inj hs
    simp only [Stand.Holds, hn, Nat.succ_pos] at hraw hone ⊢
    exact ⟨hraw, hone⟩
  | dropLast =>
    simp only [Stand.Holds, Nat.succ_pos] at hraw hone ⊢
    exact ⟨hraw, hone⟩
  | dropOrphan => cases hs
  | leave =>
    obtain ⟨rfl, rfl⟩ := hs
    simpa [Stand.Holds, Mutex.freed] using hone

end Turn

namespace Thread

variable {th : Thread} {key : GuardKey} {m : MutexIx}

theorem stand_eq {mx : Mutex} {o : Option Nat}
    (h : (th.guarded.ledger mx.backing).lookup mx.lock = o) :
    th.stand mx m = ⟨o.getD 0, th.guardsOf m, th.stage.phase m⟩ := by
  rw [stand, h]

theorem stand_congr {mx mx' : Mutex} (hlock : mx'.lock = mx.lock)
    (hbacking : mx'.backing = mx.backing) : th.stand mx' m = th.stand mx m := by
  rw [stand, stand, hlock, hbacking]

theorem guardsOf_hold (th : Thread) (key : GuardKey) (m m' : MutexIx) :
    (th.hold key m).guardsOf m' = th.guardsOf m' + if m = m' then 1 else 0 := by
  simp only [guardsOf, hold, List.countP_cons, beq_iff_eq]
  omega

theorem guardsOf_hold_ne {m' : MutexIx} (h : m ≠ m') :
    (th.hold key m).guardsOf m' = th.guardsOf m' := by
  rw [guardsOf_hold, if_neg h]; rfl

theorem guards_letGo (h : th.guard? key = some m) : ∃ l₁ l₂,
    th.guards = l₁ ++ (key, m) :: l₂ ∧ (th.letGo key).guards = l₁ ++ l₂ := by
  obtain ⟨l₁, l₂, he, hne⟩ := List.lookup_eq_some_iff.mp h
  refine ⟨l₁, l₂, he, ?_⟩
  rw [letGo, he, List.eraseP_append_right, List.eraseP_cons_of_pos (by simp)]
  intro p hp hk
  have hne := hne p hp
  rw [beq_iff_eq.mp hk] at hne
  simp at hne

theorem guardsOf_letGo (h : th.guard? key = some m) (m' : MutexIx) :
    th.guardsOf m' = (th.letGo key).guardsOf m' + if m = m' then 1 else 0 := by
  obtain ⟨l₁, l₂, he, hl⟩ := guards_letGo h
  rw [guardsOf, guardsOf, he, hl]
  simp only [letGo, List.countP_append, List.countP_cons, beq_iff_eq]
  omega

end Thread

end LockElision
