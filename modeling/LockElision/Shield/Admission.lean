import LockElision.Status
import LockElision.Directory.Basic

/-!
# Admission

The bookkeeping half of a shielded call: one look at the directory, one change to it, and the
status. The real operation has to run exactly when an acquire answers `entered` and when a release
answers `left`; everything else is settled here.
-/

namespace LockElision

open Directory

variable {D : Type} [Directory D]

/-- The status of an acquire, the directory after its bookkeeping, and a node made for it. -/
def admission (d : D) (lock : LockId) (mode : Reentrancy) :
    AcquireStatus × D × Option Exhaustion :=
  if contains d lock then
    match mode with
    | .strict => (.unbalanced, d, none)
    | .reentrant =>
      match increment d lock with
      | some (_, d') => (.nested, d', none)
      | none => (.nested, d, none)
  else
    match place d lock with
    | .placed d' notice => (.entered, d', notice)
    | .full _ => (.full, d, none)

/-- The status of a release and the directory after it. A strict release forgets every level. -/
def withdrawal (d : D) (lock : LockId) : Reentrancy → ReleaseStatus × D
  | .reentrant =>
    match decrement d lock with
    | none => (.unbalanced, d)
    | some (0, d') => (.left, d')
    | some (_ + 1, d') => (.nested, d')
  | .strict =>
    match remove d lock with
    | none => (.unbalanced, d)
    | some (_, d') => (.left, d')

/-- Undoes an admission whose real lock did not come back: the lock is forgotten, however deep. -/
def rollBack (d : D) (lock : LockId) : Option Holding × D :=
  match remove d lock with
  | none => (none, d)
  | some (h, d') => (some h, d')

end LockElision
