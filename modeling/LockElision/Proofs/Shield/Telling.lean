import LockElision.Proofs.Directory.Command
import LockElision.Proofs.Shield.Lending

/-!
# What a status tells

`AcquireStatus.Leaves` and `ReleaseStatus.Leaves` list every way a call can end: its status, and the
depth of its lock before and after. The predicates of a status are read off these lists. Over any
directory that a script of shielded calls and commands can lead to, each of them says what became of
the lock (`Shield.statuses_tell`), with one exception: a strict acquire of a recorded lock is
refused, and its status denies that the lock is held although it stays recorded
(`Shield.statuses_tell_strict`).
-/

namespace LockElision

open Directory LawfulDirectory

/-! ## Acquires -/

/-- The ways an acquire can end, by the depth of its lock before and after it. -/
inductive AcquireStatus.Leaves : AcquireStatus → Reentrancy → Option Nat → Option Nat → Prop where
  | entered {mode : Reentrancy} : Leaves .entered mode none (some 1)
  | full {mode : Reentrancy} : Leaves .full mode none none
  | nested {n : Nat} : 1 ≤ n → Leaves .nested .reentrant (some n) (some (n + 1))
  | unbalanced {n : Nat} : Leaves .unbalanced .strict (some n) (some n)

/-- What the predicates of an acquire say about the depth of its lock before and after it. -/
structure AcquireStatus.Tells (status : AcquireStatus) (mode : Reentrancy)
    (before after : Option Nat) : Prop where
  isHeld : status.isHeld = true ↔ after.isSome = true ∧ ¬(mode = .strict ∧ before.isSome = true)
  forwarded : status.forwarded = true ↔ before = none ∧ after = some 1
  elided : status.elided = true ↔ ∃ n, 1 ≤ n ∧ before = some n ∧ after = some (n + 1)
  isUnbalanced : status.isUnbalanced = true ↔ mode = .strict ∧ before.isSome = true

namespace AcquireStatus.Leaves

variable {status : AcquireStatus} {mode : Reentrancy} {before after : Option Nat}

theorem tells (h : status.Leaves mode before after) : status.Tells mode before after := by
  cases h <;> constructor <;> simp_all [isHeld, AcquireStatus.forwarded, elided, isUnbalanced]

/-- A refusal leaves the depth of the lock as it was, and nothing else does. -/
theorem refused_iff (h : status.Leaves mode before after) (lock : LockId) (capacity : Nat) :
    (∃ fault, status.toResult lock capacity = .error fault) ↔ after = before := by
  cases h <;> simp [toResult]

theorem isHeld_eq_false (h : status.Leaves mode before after) (hsame : after = before) :
    status.isHeld = false := by
  cases h <;> simp_all [isHeld]

end AcquireStatus.Leaves

theorem Ledger.enter_leaves {capacity : Option Nat} {m : Ledger} {lock : LockId}
    (hpos : ∀ n, m.lookup lock = some n → 1 ≤ n) (mode : Reentrancy) :
    (m.enter capacity lock mode).1.Leaves mode (m.lookup lock)
      ((m.enter capacity lock mode).2.lookup lock) := by
  cases hl : m.lookup lock with
  | none =>
    rw [enter_of_absent hl]
    split
    · rw [Finmap.lookup_insert]
      exact .entered
    · rw [hl]
      exact .full
  | some n =>
    cases mode with
    | reentrant =>
      rw [enter_reentrant hl, Finmap.lookup_insert]
      exact .nested (hpos n hl)
    | strict =>
      rw [enter_strict hl, hl]
      exact .unbalanced

/-! ## Releases -/

/-- The ways a release can end, by the depth of its lock before and after it. -/
inductive ReleaseStatus.Leaves : ReleaseStatus → Option Nat → Option Nat → Prop where
  | left {n : Nat} : Leaves .left (some n) none
  | nested {n : Nat} : 1 ≤ n → Leaves .nested (some (n + 1)) (some n)
  | unbalanced : Leaves .unbalanced none none

/-- What the predicates of a release say about the depth of its lock before and after it. -/
structure ReleaseStatus.Tells (status : ReleaseStatus) (before after : Option Nat) : Prop where
  forwarded : status.forwarded = true ↔ before.isSome = true ∧ after = none
  elided : status.elided = true ↔ ∃ n, 1 ≤ n ∧ before = some (n + 1) ∧ after = some n
  isUnbalanced : status.isUnbalanced = true ↔ before = none

namespace ReleaseStatus.Leaves

variable {status : ReleaseStatus} {before after : Option Nat}

theorem tells (h : status.Leaves before after) : status.Tells before after := by
  cases h <;> constructor <;> simp_all [ReleaseStatus.forwarded, elided, isUnbalanced]

theorem refused_iff (h : status.Leaves before after) (lock : LockId) :
    (∃ fault, status.toResult lock = .error fault) ↔ after = before := by
  cases h <;> simp [toResult]

theorem eq_unbalanced (h : status.Leaves before after) (hsame : after = before) :
    status = .unbalanced := by
  cases h <;> simp_all

end ReleaseStatus.Leaves

theorem Ledger.withdraw_leaves {m : Ledger} {lock : LockId}
    (hpos : ∀ n, m.lookup lock = some n → 1 ≤ n) (mode : Reentrancy) :
    (m.withdraw lock mode).1.Leaves (m.lookup lock) ((m.withdraw lock mode).2.lookup lock) := by
  cases hl : m.lookup lock with
  | none =>
    rw [withdraw_of_absent hl, hl]
    exact .unbalanced
  | some n =>
    have hn := hpos n hl
    cases mode with
    | reentrant =>
      rw [withdraw_reentrant hl]
      split
      · rw [Finmap.lookup_insert]
        obtain ⟨k, rfl⟩ : ∃ k, n = k + 1 := ⟨n - 1, by omega⟩
        exact .nested (by omega)
      · rw [Finmap.lookup_erase]
        exact .left
    | strict =>
      rw [withdraw_strict hl, Finmap.lookup_erase]
      exact .left

/-! ## On lawful directories -/

section Lawful

variable {D : Type} [Directory D] [LawfulDirectory D] {d : D}

/-- How deep a directory says a lock is held, if it is recorded. -/
def Directory.recorded {D : Type} [Directory D] (d : D) (lock : LockId) : Option Nat :=
  (find? d lock).map Holding.depth

theorem admission_leaves (hd : Sound d) (lock : LockId) (mode : Reentrancy) :
    (admission d lock mode).1.Leaves mode (recorded d lock)
      (recorded (admission d lock mode).2.1 lock) := by
  obtain ⟨hstatus, hb⟩ := admission_law hd lock mode
  unfold recorded
  rw [hstatus, ← lookup_ledger hd, ← lookup_ledger hb.sound, hb.ledger]
  exact Ledger.enter_leaves (fun n hl => depth_pos hd hl) mode

theorem withdrawal_leaves (hd : Sound d) (lock : LockId) (mode : Reentrancy) :
    (withdrawal d lock mode).1.Leaves (recorded d lock)
      (recorded (withdrawal d lock mode).2 lock) := by
  obtain ⟨hstatus, hb⟩ := withdrawal_law hd lock mode
  unfold recorded
  rw [hstatus, ← lookup_ledger hd, ← lookup_ledger hb.sound, hb.ledger]
  exact Ledger.withdraw_leaves (fun n hl => depth_pos hd hl) mode

omit [LawfulDirectory D] in
theorem withdrawal_refused {lock : LockId} {mode : Reentrancy}
    (h : (withdrawal d lock mode).1 = .unbalanced) : (withdrawal d lock mode).2 = d := by
  cases mode with
  | reentrant =>
    unfold withdrawal at h ⊢
    rcases hdec : decrement d lock with _ | ⟨_ | n, d'⟩ <;> simp_all
  | strict =>
    unfold withdrawal at h ⊢
    rcases hrem : remove d lock with _ | ⟨held, d'⟩ <;> simp_all

theorem admission_refused_iff (hd : Sound d) (lock : LockId) (mode : Reentrancy) (capacity : Nat) :
    (∃ fault, (admission d lock mode).1.toResult lock capacity = .error fault) ↔
      (admission d lock mode).2.1 = d := by
  have h := admission_leaves hd lock mode
  rw [h.refused_iff]
  constructor
  · intro hsame
    rw [admission_refused (h.isHeld_eq_false hsame)]
  · intro hsame
    rw [hsame]

theorem withdrawal_refused_iff (hd : Sound d) (lock : LockId) (mode : Reentrancy) :
    (∃ fault, (withdrawal d lock mode).1.toResult lock = .error fault) ↔
      (withdrawal d lock mode).2 = d := by
  have h := withdrawal_leaves hd lock mode
  rw [h.refused_iff]
  constructor
  · exact fun hsame => withdrawal_refused (h.eq_unbalanced hsame)
  · intro hsame
    rw [hsame]

end Lawful

/-! ## Scripts -/

section Scripts

variable {D : Type} [Inspectable D] [LawfulDirectory D]

theorem Desk.call_sound {α : Type} {real : Primitive (Desk D) α}
    (hreal : ∀ desk, Sound desk.directory → Sound (real desk).2.directory) (side : Side) (c : Call)
    {desk : Desk D} (hd : Sound desk.directory) :
    Sound (scope.call side c real desk).2.directory := by
  have hsettle := (settle_law hd side c).2.sound
  cases hf : (scope.settle side c desk).1.forwarded with
  | false =>
    rw [Scope.call_elided hf]
    exact hsettle
  | true =>
    have hrun := hreal _ hsettle
    rcases hr : real (scope.settle side c desk).2 with ⟨⟨yield, _ | panic⟩, desk'⟩
    · rw [Scope.call_returned hf hr]
      rwa [hr] at hrun
    · rw [Scope.call_broken hf hr]
      rw [hr] at hrun
      cases side with
      | lock => exact (undo_lock_law hrun c).sound
      | unlock => exact hrun

theorem Script.run_sound (script : Script) : ∀ desk : Desk D, Sound desk.directory →
    Sound (script.run desk).2.directory := by
  induction script with
  | done => exact fun desk hd => hd
  | enquire enquiry next ih => exact fun desk hd => ih desk hd
  | command c next ih => exact fun desk hd => ih _ (DirectoryCommand.run_sound hd c)
  | call side c inner panic next ihinner ihnext =>
    intro desk hd
    rw [run_call]
    exact ihnext _ (Desk.call_sound (fun desk hd => ihinner (desk.note side c) hd) side c hd)

end Scripts

/-! ## Shields -/

namespace Shield

variable {D W : Type}

section Calls

variable [Directory D] (real : Real W) (s : Shield D W) (c : Call)

theorem call_lock : (s.call real c .lock).1 =
      .ok (.acquired (admission s.directory c.lock c.mode).1) ∧
    (s.call real c .lock).2.directory = (admission s.directory c.lock c.mode).2.1 := by
  simp only [call, acquire, scope]
  rcases admission s.directory c.lock c.mode with ⟨status, d, notice⟩
  cases status <;> exact ⟨rfl, rfl⟩

theorem call_unlock : (s.call real c .unlock).1 =
      .ok (.released (withdrawal s.directory c.lock c.mode).1) ∧
    (s.call real c .unlock).2.directory = (withdrawal s.directory c.lock c.mode).2 := by
  simp only [call, release, scope]
  rcases withdrawal s.directory c.lock c.mode with ⟨status, d⟩
  cases status <;> exact ⟨rfl, rfl⟩

/-- Both sides of a call end with a status that tells what it did to the record of its lock, and
whose result is a fault exactly when the call changed nothing. -/
structure Tells : Prop where
  acquired : ∃ status, (s.call real c .lock).1 = .ok (.acquired status) ∧
    status.Tells c.mode (recorded s.directory c.lock)
      (recorded (s.call real c .lock).2.directory c.lock) ∧
    ∀ capacity, (∃ fault, status.toResult c.lock capacity = .error fault) ↔
      (s.call real c .lock).2.directory = s.directory
  released : ∃ status, (s.call real c .unlock).1 = .ok (.released status) ∧
    status.Tells (recorded s.directory c.lock)
      (recorded (s.call real c .unlock).2.directory c.lock) ∧
    ((∃ fault, status.toResult c.lock = .error fault) ↔
      (s.call real c .unlock).2.directory = s.directory)

end Calls

theorem tells_of_sound [Directory D] [LawfulDirectory D] (real : Real W) {s : Shield D W}
    (hs : Sound s.directory) (c : Call) : s.Tells real c := by
  obtain ⟨hacquired, hlock⟩ := s.call_lock real c
  obtain ⟨hreleased, hunlock⟩ := s.call_unlock real c
  constructor
  · refine ⟨_, hacquired, ?_⟩
    rw [hlock]
    exact ⟨(admission_leaves hs c.lock c.mode).tells, admission_refused_iff hs c.lock c.mode⟩
  · refine ⟨_, hreleased, ?_⟩
    rw [hunlock]
    exact ⟨(withdrawal_leaves hs c.lock c.mode).tells, withdrawal_refused_iff hs c.lock c.mode⟩

/-- **Statuses tell what became of the lock**, over every directory that a script of shielded calls
and commands leads to from an empty slot table of any length or an empty pooled directory. Of an
acquire, `isHeld` leaves out one case in which the lock is recorded after the call: it was so before
and the entry was strict. -/
theorem statuses_tell (script : Script) (real : Real W) (world : W) (c : Call) :
    (∀ n, Tells real ⟨(script.run (Desk.start (SlotTable.empty n))).2.directory, world⟩ c) ∧
    ∀ hash poolSize buckets, Tells real
      ⟨(script.run (Desk.start (PooledDirectory.create hash poolSize buckets))).2.directory, world⟩
      c :=
  ⟨fun n => tells_of_sound real (script.run_sound _ (SlotTable.sound_empty n).1) c,
    fun _ _ _ => tells_of_sound real (script.run_sound _ (PooledDirectory.sound_create ..).1) c⟩

/-- The one case that `isHeld` leaves out: a lock entered once and then strictly again. It is still
recorded once, and the status of the second entry denies that it is held. -/
theorem statuses_tell_strict :
    let c : Call := ⟨⟨5⟩, .strict, []⟩
    let script : Script := .call .lock c .done none .done
    let s : Shield (SlotTable 4) Unit :=
      ⟨(script.run (Desk.start (SlotTable.empty 4))).2.directory, ()⟩
    ∃ status, (s.call (fun _ _ w => w) c .lock).1 = .ok (.acquired status) ∧
      status.isHeld = false ∧
      recorded (s.call (fun _ _ w => w) c .lock).2.directory c.lock = some 1 := by
  intro c script s
  obtain ⟨status, hstatus, htells, -⟩ := ((statuses_tell script (fun _ _ w => w) () c).1 4).acquired
  refine ⟨status, hstatus, Bool.eq_false_iff.mpr fun hheld => ?_, rfl⟩
  exact (htells.isHeld.mp hheld).2 ⟨rfl, rfl⟩

end Shield

end LockElision
