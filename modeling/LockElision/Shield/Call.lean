import LockElision.Shield.Admission

/-!
# Shielded calls

`acquire` and `release` put the real operation of a lock behind the bookkeeping of `Admission`.
The directory lives somewhere in a larger state `σ`, which a `Scope` gives access to, so the real
operation may itself use the same directory: it runs between bookkeeping steps, never inside one.

A real operation may break off with a message. A broken lock operation takes the record of its lock
with it, whatever became of that record meanwhile; a broken unlock operation changes nothing back.
-/

namespace LockElision

/-- A shielded call: which lock, how, and what else the real operation is given. -/
structure Call where
  lock : LockId
  mode : Reentrancy
  args : List UInt64
  deriving DecidableEq, Repr

/-- One bookkeeping step on a directory. -/
inductive Booking where
  | acquire (call : Call) (status : AcquireStatus) (notice : Option Exhaustion)
  | release (call : Call) (status : ReleaseStatus)
  | rollBack (lock : LockId) (removed : Option Holding)
  deriving DecidableEq, Repr

def Booking.notice? : Booking → Option Exhaustion
  | acquire _ _ notice => notice
  | _ => none

/-- Where in a state the directory is, and how the state takes note of a bookkeeping step. -/
structure Scope (σ D : Type) where
  directory : σ → D
  book : Booking → D → σ → σ

/-- Why an operation broke off. -/
abbrev Panic := String

/-- A real operation: it yields something, and may break off afterwards. -/
abbrev Primitive (σ α : Type) := σ → (α × Option Panic) × σ

/-- The end of a shielded call with status type `S`, whose real operation yields an `α`. -/
inductive Outcome (S α : Type) where
  /-- The real operation was not called. -/
  | elided (status : S)
  /-- The real operation ran and came back. -/
  | forwarded (status : S) (yield : α)
  /-- The real operation broke off, and the call with it. -/
  | unwound (panic : Panic) (yield : α)

variable {σ D α : Type} [Directory D]

def acquire (scope : Scope σ D) (call : Call) (lockIt : Primitive σ α) (s : σ) :
    Outcome AcquireStatus α × σ :=
  let (status, d, notice) := admission (scope.directory s) call.lock call.mode
  let s := scope.book (.acquire call status notice) d s
  match status with
  | .entered =>
    match lockIt s with
    | ((yield, none), s) => (.forwarded .entered yield, s)
    | ((yield, some panic), s) =>
      let (removed, d) := rollBack (scope.directory s) call.lock
      (.unwound panic yield, scope.book (.rollBack call.lock removed) d s)
  | status => (.elided status, s)

def release (scope : Scope σ D) (call : Call) (unlockIt : Primitive σ α) (s : σ) :
    Outcome ReleaseStatus α × σ :=
  let (status, d) := withdrawal (scope.directory s) call.lock call.mode
  let s := scope.book (.release call status) d s
  match status with
  | .left =>
    match unlockIt s with
    | ((yield, none), s) => (.forwarded .left yield, s)
    | ((yield, some panic), s) => (.unwound panic yield, s)
  | status => (.elided status, s)

end LockElision
