import LockElision.Proofs.Shield.Reference

/-!
# Calls by their bookkeeping

A shielded call of either side is the same three things: bookkeeping that settles the status
(`Scope.settle`), the real operation if the status says so, and bookkeeping again if that broke off
(`Scope.undo`). `call_eq` puts a call together from them; nothing else is known of calls later on.

Two desks with the same directory settle and undo alike (`Desk.Alike`), and over a lawful directory
they do what the reference machine does (`Desk.settle_law`, `Desk.undo_lock_law`).
-/

namespace LockElision

open Directory

/-- How a call ended, and what its real operation yielded if it was called. -/
def Outcome.result {S α : Type} (wrap : S → CallStatus) :
    Outcome S α → Except Panic CallStatus × Option α
  | elided status => (.ok (wrap status), none)
  | forwarded status yield => (.ok (wrap status), some yield)
  | unwound panic yield => (.error panic, some yield)

/-- A call reaches its real operation. -/
def Desk.note {D : Type} (desk : Desk D) (side : Side) (c : Call) : Desk D :=
  { desk with journal := .called side c :: desk.journal }

namespace Scope

variable {σ D α : Type} [Directory D]

/-- A shielded call of either side. -/
def call (scope : Scope σ D) (side : Side) (c : Call) (real : Primitive σ α) (s : σ) :
    (Except Panic CallStatus × Option α) × σ :=
  match side with
  | .lock =>
    let (outcome, s) := acquire scope c real s
    (outcome.result .acquired, s)
  | .unlock =>
    let (outcome, s) := release scope c real s
    (outcome.result .released, s)

/-- The bookkeeping that comes first. -/
def settle (scope : Scope σ D) (side : Side) (c : Call) (s : σ) : CallStatus × σ :=
  match side with
  | .lock =>
    let (status, d, notice) := admission (scope.directory s) c.lock c.mode
    (.acquired status, scope.book (.acquire c status notice) d s)
  | .unlock =>
    let (status, d) := withdrawal (scope.directory s) c.lock c.mode
    (.released status, scope.book (.release c status) d s)

/-- The bookkeeping that follows a real operation that broke off. -/
def undo (scope : Scope σ D) (side : Side) (c : Call) (s : σ) : σ :=
  match side with
  | .lock =>
    let (removed, d) := rollBack (scope.directory s) c.lock
    scope.book (.rollBack c.lock removed) d s
  | .unlock => s

theorem call_eq (scope : Scope σ D) (side : Side) (c : Call) (real : Primitive σ α) (s : σ) :
    scope.call side c real s =
      let (status, s') := scope.settle side c s
      if status.forwarded = true then
        match real s' with
        | ((yield, none), s'') => ((.ok status, some yield), s'')
        | ((yield, some panic), s'') => ((.error panic, some yield), scope.undo side c s'')
      else ((.ok status, none), s') := by
  cases side with
  | lock =>
    unfold call settle undo acquire
    rcases admission (scope.directory s) c.lock c.mode with ⟨status, d, notice⟩
    cases status with
    | entered =>
      simp only [CallStatus.forwarded, AcquireStatus.forwarded, if_true]
      rcases real _ with ⟨⟨yield, _ | panic⟩, s''⟩ <;> rfl
    | _ => rfl
  | unlock =>
    unfold call settle undo release
    rcases withdrawal (scope.directory s) c.lock c.mode with ⟨status, d⟩
    cases status with
    | left =>
      simp only [CallStatus.forwarded, ReleaseStatus.forwarded, if_true]
      rcases real _ with ⟨⟨yield, _ | panic⟩, s''⟩ <;> rfl
    | _ => rfl

theorem settle_lock (scope : Scope σ D) {c : Call} {s : σ} {status : AcquireStatus} {d : D}
    {notice : Option Exhaustion}
    (h : admission (scope.directory s) c.lock c.mode = (status, d, notice)) :
    scope.settle .lock c s = (.acquired status, scope.book (.acquire c status notice) d s) := by
  unfold settle
  rw [h]

theorem undo_lock_of_held (scope : Scope σ D) {c : Call} {s : σ} {h : Holding} {d : D}
    (hr : remove (scope.directory s) c.lock = some (h, d)) :
    scope.undo .lock c s = scope.book (.rollBack c.lock (some h)) d s := by
  unfold undo rollBack
  rw [hr]

variable {scope : Scope σ D} {side : Side} {c : Call} {real : Primitive σ α} {s s' : σ}
  {yield : α} {panic : Panic}

theorem call_elided (h : (scope.settle side c s).1.forwarded = false) :
    scope.call side c real s =
      ((.ok (scope.settle side c s).1, none), (scope.settle side c s).2) := by
  rw [call_eq]
  simp [h]

theorem call_returned (h : (scope.settle side c s).1.forwarded = true)
    (hr : real (scope.settle side c s).2 = ((yield, none), s')) :
    scope.call side c real s = ((.ok (scope.settle side c s).1, some yield), s') := by
  rw [call_eq]
  simp [h, hr]

theorem call_broken (h : (scope.settle side c s).1.forwarded = true)
    (hr : real (scope.settle side c s).2 = ((yield, some panic), s')) :
    scope.call side c real s = ((.error panic, some yield), scope.undo side c s') := by
  rw [call_eq]
  simp [h, hr]

end Scope

/-! ## Desks alike -/

namespace Desk

variable {D β : Type} {see : Happening → Option β} {a b : Desk D}

/-- Two desks that no call can tell apart, and where the same was seen to happen. -/
structure Alike (see : Happening → Option β) (a b : Desk D) : Prop where
  directory : a.directory = b.directory
  seen : a.journal.filterMap see = b.journal.filterMap see

theorem seen_cons (happening : Happening) {journal journal' : List Happening}
    (h : journal.filterMap see = journal'.filterMap see) :
    (happening :: journal).filterMap see = (happening :: journal').filterMap see := by
  rw [List.filterMap_cons, List.filterMap_cons, h]

theorem Alike.note (h : a.Alike see b) (side : Side) (c : Call) :
    (a.note side c).Alike see (b.note side c) :=
  ⟨h.directory, seen_cons (.called side c) h.seen⟩

theorem Alike.conclude [Inspectable D] (h : a.Alike see b) (lock : LockId) :
    a.Alike see (b.conclude lock).2 :=
  ⟨h.directory, h.seen⟩

variable [Directory D]

theorem Alike.settle (h : a.Alike see b) (side : Side) (c : Call) :
    (scope.settle side c a).1 = (scope.settle side c b).1 ∧
      (scope.settle side c a).2.Alike see (scope.settle side c b).2 := by
  obtain ⟨d, journal, unread⟩ := a
  obtain ⟨hd, hseen⟩ := h
  cases hd
  cases side with
  | lock => exact ⟨rfl, rfl, seen_cons _ hseen⟩
  | unlock => exact ⟨rfl, rfl, seen_cons _ hseen⟩

theorem Alike.undo (h : a.Alike see b) (side : Side) (c : Call) :
    (scope.undo side c a).Alike see (scope.undo side c b) := by
  obtain ⟨d, journal, unread⟩ := a
  obtain ⟨hd, hseen⟩ := h
  cases hd
  cases side with
  | lock => exact ⟨rfl, seen_cons _ hseen⟩
  | unlock => exact ⟨rfl, hseen⟩

end Desk

/-! ## Lawful directories -/

namespace Desk

open LawfulDirectory

variable {D : Type} [Directory D] [LawfulDirectory D] {desk : Desk D}

/-- The bookkeeping that comes first is a call of the reference machine. -/
theorem settle_law (hd : Sound desk.directory) (side : Side) (c : Call) :
    (scope.settle side c desk).1 =
        ((ledger desk.directory).call (capacity desk.directory) c side).1 ∧
      Becomes Sound desk.directory (scope.settle side c desk).2.directory
        ((ledger desk.directory).call (capacity desk.directory) c side).2 := by
  cases side with
  | lock =>
    obtain ⟨hstatus, hb⟩ := admission_law hd c.lock c.mode
    exact ⟨congrArg CallStatus.acquired hstatus, hb⟩
  | unlock =>
    obtain ⟨hstatus, hb⟩ := withdrawal_law hd c.lock c.mode
    exact ⟨congrArg CallStatus.released hstatus, hb⟩

theorem undo_lock_law (hd : Sound desk.directory) (c : Call) :
    Becomes Sound desk.directory (scope.undo .lock c desk).directory
      ((ledger desk.directory).erase c.lock) :=
  (rollBack_law hd c.lock).2

end Desk

end LockElision
