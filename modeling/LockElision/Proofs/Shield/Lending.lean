import LockElision.Proofs.Shield.Bookkeeping

/-!
# Lending the directory

The directory of a shield is lent out, to one user at a time: who asks for it while it is lent is
stopped for good. `Script.lend` plays a script that way. Each step of bookkeeping borrows the
directory and gives it back before anything else happens, so a real operation finds it free, however
deep it is nested, and no script is ever stopped (`lend_eq`).
-/

namespace LockElision

/-- A desk, and whether its directory is lent. -/
structure Lender (D : Type) where
  desk : Desk D
  lent : Bool

namespace Lender

variable {D : Type} [Inspectable D]

/-- The directory goes into the hands of the caller, if it is there. -/
def borrow (l : Lender D) : Option (D × Lender D) :=
  if l.lent then none else some (l.desk.directory, { l with lent := true })

/-- The directory comes back, with a note of what was done to it. -/
def giveBack (l : Lender D) (booking : Booking) (d : D) : Lender D :=
  ⟨Desk.scope.book booking d l.desk, false⟩

/-- The bookkeeping that comes first in a call. -/
def settle (l : Lender D) (side : Side) (c : Call) : Option (CallStatus × Lender D) := do
  let (d, l) ← l.borrow
  match side with
  | .lock =>
    let (status, d, notice) := admission d c.lock c.mode
    return (.acquired status, l.giveBack (.acquire c status notice) d)
  | .unlock =>
    let (status, d) := withdrawal d c.lock c.mode
    return (.released status, l.giveBack (.release c status) d)

/-- The bookkeeping that follows a real operation that broke off. -/
def undo (l : Lender D) (side : Side) (c : Call) : Option (Lender D) :=
  match side with
  | .lock => do
    let (d, l) ← l.borrow
    let (removed, d) := rollBack d c.lock
    return l.giveBack (.rollBack c.lock removed) d
  | .unlock => some l

/-- A shielded call whose real operation is run while the directory is not lent. -/
def call {α : Type} (l : Lender D) (side : Side) (c : Call)
    (real : Lender D → Option ((α × Option Panic) × Lender D)) :
    Option ((Except Panic CallStatus × Option α) × Lender D) := do
  let (status, l) ← l.settle side c
  if status.forwarded = true then
    match ← real l with
    | ((yield, none), l) => return ((.ok status, some yield), l)
    | ((yield, some panic), l) => return ((.error panic, some yield), ← l.undo side c)
  else return ((.ok status, none), l)

end Lender

namespace Script

/-- A script of shielded calls and nothing else, at any depth. -/
def onlyCalls : Script → Bool
  | done => true
  | enquire _ _ | command _ _ => false
  | call _ _ inner _ next => inner.onlyCalls && next.onlyCalls

variable {D : Type} [Inspectable D]

/-- Plays a script, with no answer if the directory is asked for while it is lent. -/
def lend : Script → Lender D → Option (List Reply × Lender D)
  | done, l => some ([], l)
  | enquire enquiry next, l => do
    let (d, l) ← l.borrow
    let (replies, l) ← next.lend { l with lent := false }
    return (enquiry.answer d :: replies, l)
  | command c next, l => do
    let (d, l) ← l.borrow
    let (reply, d, notices) := c.run d
    let (replies, l) ← next.lend
      ⟨{ l.desk with directory := d, unread := l.desk.unread ++ notices }, false⟩
    return (.command reply :: replies, l)
  | call side c inner panic next, l => do
    let ((ended, yield), l) ← l.call side c fun l => do
      let (answers, l) ← inner.lend { l with desk := l.desk.note side c }
      return ((answers, panic), l)
    let (after, desk) := l.desk.conclude c.lock
    let (replies, l) ← next.lend { l with desk := desk }
    return (.call side c ended yield.isSome (yield.getD []) after :: replies, l)

/-- What the real operation of a call in a script does. -/
def primitive (inner : Script) (side : Side) (c : Call) (panic : Option Panic) :
    Primitive (Desk D) (List Reply) :=
  fun desk =>
    let (replies, desk) := inner.run (desk.note side c)
    ((replies, panic), desk)

theorem run_call (side : Side) (c : Call) (inner next : Script) (panic : Option Panic)
    (desk : Desk D) : (call side c inner panic next).run desk =
      let ((ended, yield), desk) := Desk.scope.call side c (inner.primitive side c panic) desk
      let (after, desk) := desk.conclude c.lock
      let (replies, desk) := next.run desk
      (.call side c ended yield.isSome (yield.getD []) after :: replies, desk) := by
  unfold Scope.call primitive Desk.note
  cases side with
  | lock =>
    simp only [run]
    rcases acquire Desk.scope c _ desk with ⟨outcome, desk'⟩
    cases outcome <;> rfl
  | unlock =>
    simp only [run]
    rcases release Desk.scope c _ desk with ⟨outcome, desk'⟩
    cases outcome <;> rfl

end Script

namespace Lender

variable {D : Type} [Inspectable D]

theorem settle_free (desk : Desk D) (side : Side) (c : Call) :
    settle ⟨desk, false⟩ side c =
      some ((Desk.scope.settle side c desk).1, ⟨(Desk.scope.settle side c desk).2, false⟩) := by
  cases side <;> rfl

theorem undo_free (desk : Desk D) (side : Side) (c : Call) :
    undo ⟨desk, false⟩ side c = some ⟨Desk.scope.undo side c desk, false⟩ := by
  cases side <;> rfl

/-- A real operation that never asks for a lent directory makes a call that does not either. -/
theorem call_free {α : Type} {side : Side} {c : Call}
    {real : Lender D → Option ((α × Option Panic) × Lender D)} {plain : Primitive (Desk D) α}
    (hreal : ∀ desk, real ⟨desk, false⟩ = some ((plain desk).1, ⟨(plain desk).2, false⟩))
    (desk : Desk D) : call ⟨desk, false⟩ side c real =
      some ((Desk.scope.call side c plain desk).1,
        ⟨(Desk.scope.call side c plain desk).2, false⟩) := by
  rw [Scope.call_eq]
  unfold call
  rw [settle_free]
  simp only [Option.bind_eq_bind, Option.bind_some]
  rcases Desk.scope.settle side c desk with ⟨status, desk₁⟩
  by_cases hf : status.forwarded = true
  · simp only [hf, if_true, hreal, Option.bind_some]
    rcases plain desk₁ with ⟨⟨yield, _ | panic⟩, desk₂⟩
    · rfl
    · simp only [undo_free, Option.bind_some]
      rfl
  · simp only [hf]
    rfl

end Lender

/-- **The directory is never asked for while it is lent.** -/
theorem Script.lend_eq {D : Type} [Inspectable D] (script : Script) : ∀ desk : Desk D,
    script.lend ⟨desk, false⟩ = some ((script.run desk).1, ⟨(script.run desk).2, false⟩) := by
  induction script with
  | done => exact fun desk => rfl
  | enquire enquiry next ih =>
    intro desk
    show (next.lend ⟨desk, false⟩).bind _ = _
    rw [ih desk]
    rfl
  | command c next ih =>
    intro desk
    show (next.lend _).bind _ = _
    rw [ih]
    rfl
  | call side c inner panic next ihinner ihnext =>
    intro desk
    have hreal : ∀ desk : Desk D, (do
        let (answers, l) ← inner.lend ⟨desk.note side c, false⟩
        return ((answers, panic), l)) =
        some ((inner.primitive side c panic desk).1,
          (⟨(inner.primitive side c panic desk).2, false⟩ : Lender D)) := by
      intro desk
      rw [ihinner]
      rfl
    rw [run_call]
    unfold lend
    rw [Lender.call_free hreal]
    simp only [Option.bind_eq_bind, Option.bind_some]
    rw [ihnext]
    rfl

end LockElision
