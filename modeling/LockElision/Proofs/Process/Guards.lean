import LockElision.Process.World
import LockElision.Proofs.Process.Shelf
import LockElision.Proofs.Shield.Admission

/-!
# Guard directories

What the operations of mutexes read and write in a thread's guard directories, told by ledgers.
-/

namespace LockElision

namespace World

open LawfulDirectory

variable {w : World} {t : ThreadIx} {m : MutexIx}

/-- The ledger in which a thread records a mutex. -/
def guardLedger (w : World) (t : ThreadIx) (m : MutexIx) : Ledger :=
  (w.threads t).guarded.ledger (w.mutexes m).backing

theorem useGuarded_law {α : Type} {b : Backing}
    {f : {D : Type} → [Inspectable D] → D → α × D} {P : α → Prop} {l : Ledger}
    (hs : (w.threads t).guarded.Sound)
    (hf : ∀ {D : Type} [Inspectable D] [LawfulDirectory D] (d : D), Sound d →
      Directory.capacity d = b.capacity →
      Directory.ledger d = (w.threads t).guarded.ledger b →
      P (f d).1 ∧ Becomes (Sound (D := D)) d (f d).2 l) :
    ∃ a shelf, w.useGuarded t b f =
      (a, { w.threads t with running := true, guarded := shelf }) ∧
      P a ∧ (w.threads t).guarded.Becomes shelf b l := by
  have h := Shelf.use_law w.newPooled hs (PooledDirectory.sound_create ..).1
    (PooledDirectory.ledger_create ..) hf
  exact ⟨_, _, rfl, h⟩

/-- Asking for a level of a mutex is an admission to the thread's ledger. -/
theorem recordGuard_law (hs : (w.threads t).guarded.Sound) :
    let capacity := (w.mutexes m).backing.capacity
    let r := (w.guardLedger t m).enter capacity (w.mutexes m).lock .reentrant
    ∃ notice shelf, w.recordGuard t m =
      ((r.1, notice, capacity.getD 0), { w.threads t with running := true, guarded := shelf }) ∧
      (w.threads t).guarded.Becomes shelf (w.mutexes m).backing r.2 := by
  intro capacity r
  obtain ⟨⟨status, notice, named⟩, shelf, he, ⟨hstatus, hnamed⟩, hb⟩ :=
    useGuarded_law (w := w) (t := t) (b := (w.mutexes m).backing)
      (P := fun a => a.1 = r.1 ∧ a.2.2 = capacity.getD 0)
      (f := fun d =>
        let a := admission d (w.mutexes m).lock .reentrant
        ((a.1, a.2.2, (Directory.capacity d).getD 0), a.2.1)) (l := r.2) hs
      fun d hd hcap hl => by
        have h := admission_law hd (w.mutexes m).lock .reentrant
        rw [hl, hcap] at h
        exact ⟨⟨h.1, congrArg (Option.getD · 0) hcap⟩, h.2⟩
  obtain rfl : status = r.1 := hstatus
  obtain rfl : named = capacity.getD 0 := hnamed
  exact ⟨notice, shelf, he, hb⟩

theorem guardDepth_law (hs : (w.threads t).guarded.Sound) :
    ∃ shelf, w.guardDepth t m = ((w.guardLedger t m).lookup (w.mutexes m).lock,
      { w.threads t with running := true, guarded := shelf }) ∧
      (w.threads t).guarded.Becomes shelf (w.mutexes m).backing (w.guardLedger t m) := by
  obtain ⟨depth, shelf, he, hdepth, hb⟩ :=
    useGuarded_law (w := w) (t := t) (b := (w.mutexes m).backing)
      (P := fun a => a = (w.guardLedger t m).lookup (w.mutexes m).lock)
      (f := fun d => ((Directory.find? d (w.mutexes m).lock).map Holding.depth, d))
      (l := w.guardLedger t m) hs
      fun d hd _ hl => by
        rw [← lookup_ledger hd, guardLedger, ← hl]
        exact ⟨rfl, .refl hd⟩
  obtain rfl : depth = _ := hdepth
  exact ⟨shelf, he, hb⟩

theorem withdrawGuard_law (hs : (w.threads t).guarded.Sound) :
    let r := (w.guardLedger t m).withdraw (w.mutexes m).lock .reentrant
    ∃ shelf, w.useGuarded t (w.mutexes m).backing
        (fun d => withdrawal d (w.mutexes m).lock .reentrant) =
      (r.1, { w.threads t with running := true, guarded := shelf }) ∧
      (w.threads t).guarded.Becomes shelf (w.mutexes m).backing r.2 := by
  intro r
  obtain ⟨status, shelf, he, hstatus, hb⟩ :=
    useGuarded_law (w := w) (t := t) (b := (w.mutexes m).backing) (P := fun a => a = r.1)
      (f := fun d => withdrawal d (w.mutexes m).lock .reentrant) (l := r.2) hs
      fun d hd _ hl => by
        have h := withdrawal_law hd (w.mutexes m).lock .reentrant
        rw [hl] at h
        exact h
  obtain rfl : status = r.1 := hstatus
  exact ⟨shelf, he, hb⟩

end World

end LockElision
