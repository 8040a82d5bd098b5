import LockElision.Proofs.Directory.Lawful
import LockElision.Shield.Admission

/-!
# Admission on ledgers

What a shielded acquire and a shielded release do to a finite map, and that the bookkeeping of a
lawful directory does just that.
-/

namespace LockElision

namespace Ledger

/-- The status of an acquire and the map after it. -/
def enter (capacity : Option Nat) (m : Ledger) (lock : LockId) (mode : Reentrancy) :
    AcquireStatus × Ledger :=
  match m.lookup lock, mode with
  | none, _ => if m.hasRoom capacity then (.entered, m.insert lock 1) else (.full, m)
  | some n, .reentrant => (.nested, m.insert lock (n + 1))
  | some _, .strict => (.unbalanced, m)

/-- The status of a release and the map after it. -/
def withdraw (m : Ledger) (lock : LockId) (mode : Reentrancy) : ReleaseStatus × Ledger :=
  match m.lookup lock, mode with
  | none, _ => (.unbalanced, m)
  | some n, .reentrant =>
    if 1 < n then (.nested, m.insert lock (n - 1)) else (.left, m.erase lock)
  | some _, .strict => (.left, m.erase lock)

variable {capacity : Option Nat} {m : Ledger} {lock : LockId} {mode : Reentrancy} {n : Nat}

theorem enter_of_absent (h : m.lookup lock = none) : m.enter capacity lock mode =
    if m.hasRoom capacity then (.entered, m.insert lock 1) else (.full, m) := by
  rw [enter.eq_def, h]

theorem enter_reentrant (h : m.lookup lock = some n) :
    m.enter capacity lock .reentrant = (.nested, m.insert lock (n + 1)) := by
  rw [enter.eq_def, h]

theorem enter_strict (h : m.lookup lock = some n) :
    m.enter capacity lock .strict = (.unbalanced, m) := by
  rw [enter.eq_def, h]

theorem withdraw_of_absent (h : m.lookup lock = none) :
    m.withdraw lock mode = (.unbalanced, m) := by
  rw [withdraw.eq_def, h]

theorem withdraw_reentrant (h : m.lookup lock = some n) : m.withdraw lock .reentrant =
    if 1 < n then (.nested, m.insert lock (n - 1)) else (.left, m.erase lock) := by
  rw [withdraw.eq_def, h]

theorem withdraw_strict (h : m.lookup lock = some n) :
    m.withdraw lock .strict = (.left, m.erase lock) := by
  rw [withdraw.eq_def, h]

theorem lookup_enter_ne {other : LockId} (h : other ≠ lock) :
    (m.enter capacity lock mode).2.lookup other = m.lookup other := by
  cases hl : m.lookup lock with
  | none =>
    rw [enter_of_absent hl]
    split
    · exact Finmap.lookup_insert_of_ne _ h
    · rfl
  | some n =>
    cases mode with
    | reentrant => rw [enter_reentrant hl]; exact Finmap.lookup_insert_of_ne _ h
    | strict => rw [enter_strict hl]

theorem lookup_withdraw_ne {other : LockId} (h : other ≠ lock) :
    (m.withdraw lock mode).2.lookup other = m.lookup other := by
  cases hl : m.lookup lock with
  | none => rw [withdraw_of_absent hl]
  | some n =>
    cases mode with
    | reentrant =>
      rw [withdraw_reentrant hl]
      split
      · exact Finmap.lookup_insert_of_ne _ h
      · exact Finmap.lookup_erase_ne h
    | strict => rw [withdraw_strict hl]; exact Finmap.lookup_erase_ne h

end Ledger

open Directory LawfulDirectory

variable {D : Type} [Directory D] [LawfulDirectory D] {d : D}

/-- An acquire is refused or let through as on the map the directory stands for. -/
theorem admission_law (hd : Sound d) (lock : LockId) (mode : Reentrancy) :
    (admission d lock mode).1 = ((ledger d).enter (capacity d) lock mode).1 ∧
      Becomes Sound d (admission d lock mode).2.1
        ((ledger d).enter (capacity d) lock mode).2 := by
  have hc := contains_eq hd lock
  cases hl : (ledger d).lookup lock with
  | none =>
    rw [Ledger.enter_of_absent hl, ← hasRoom_ledger hd]
    rw [hl] at hc
    cases hr : hasRoom d with
    | true =>
      obtain ⟨d', notice, hp, hb⟩ := place_of_room hd (Finmap.lookup_eq_none.mp hl) hr
      simp only [admission, hc, hp]
      exact ⟨rfl, hb⟩
    | false =>
      obtain ⟨n, -, hp⟩ := place_of_full hd hr lock
      simp only [admission, hc, hp]
      exact ⟨rfl, .refl hd⟩
  | some n =>
    rw [hl] at hc
    cases mode with
    | strict =>
      rw [Ledger.enter_strict hl]
      simp only [admission, hc]
      exact ⟨rfl, .refl hd⟩
    | reentrant =>
      obtain ⟨d', hi, hb⟩ := increment_of_held hd hl
      rw [Ledger.enter_reentrant hl]
      simp only [admission, hc, hi]
      exact ⟨rfl, hb⟩

theorem withdrawal_law (hd : Sound d) (lock : LockId) (mode : Reentrancy) :
    (withdrawal d lock mode).1 = ((ledger d).withdraw lock mode).1 ∧
      Becomes Sound d (withdrawal d lock mode).2 ((ledger d).withdraw lock mode).2 := by
  cases hl : (ledger d).lookup lock with
  | none =>
    have hm := Finmap.lookup_eq_none.mp hl
    rw [Ledger.withdraw_of_absent hl]
    cases mode with
    | reentrant => rw [withdrawal, decrement_of_absent hd hm]; exact ⟨rfl, .refl hd⟩
    | strict => rw [withdrawal, remove_of_absent hd hm]; exact ⟨rfl, .refl hd⟩
  | some n =>
    cases mode with
    | strict =>
      obtain ⟨d', hr, hb⟩ := remove_of_held hd hl
      rw [Ledger.withdraw_strict hl, withdrawal, hr]
      exact ⟨rfl, hb⟩
    | reentrant =>
      rw [Ledger.withdraw_reentrant hl]
      by_cases hn : 1 < n
      · obtain ⟨d', hr, hb⟩ := decrement_of_nested hd hl hn
        obtain ⟨k, rfl⟩ : ∃ k, n = k + 2 := ⟨n - 2, by omega⟩
        rw [if_pos hn, withdrawal, hr]
        exact ⟨rfl, hb⟩
      · obtain rfl : n = 1 := by have := depth_pos hd hl; omega
        obtain ⟨d', hr, hb⟩ := decrement_of_last hd hl
        rw [if_neg hn, withdrawal, hr]
        exact ⟨rfl, hb⟩

theorem admission_of_placed {lock : LockId} {d' : D} {notice : Option Exhaustion} (hd : Sound d)
    (hm : lock ∉ ledger d) (hp : place d lock = .placed d' notice) (mode : Reentrancy) :
    admission d lock mode = (.entered, d', notice) := by
  have hc := contains_eq hd lock
  rw [Finmap.lookup_eq_none.mpr hm] at hc
  simp only [admission, hc, hp]
  rfl

theorem admission_of_full {lock : LockId} {n : Nat} (hd : Sound d) (hm : lock ∉ ledger d)
    (hp : place d lock = .full n) (mode : Reentrancy) :
    admission d lock mode = (.full, d, none) := by
  have hc := contains_eq hd lock
  rw [Finmap.lookup_eq_none.mpr hm] at hc
  simp only [admission, hc, hp]
  rfl

omit [LawfulDirectory D] in
theorem admission_refused {lock : LockId} {mode : Reentrancy}
    (h : (admission d lock mode).1.isHeld = false) : (admission d lock mode).2 = (d, none) := by
  unfold admission at h ⊢
  split
  · cases mode with
    | strict => rfl
    | reentrant => cases hi : increment d lock <;> simp_all [AcquireStatus.isHeld]
  · cases hp : place d lock <;> simp_all [AcquireStatus.isHeld]

/-- Undoing an admission takes the lock out of the map, however deep it is. -/
theorem rollBack_law (hd : Sound d) (lock : LockId) :
    (rollBack d lock).1 = ((ledger d).lookup lock).map (Holding.mk lock) ∧
      Becomes Sound d (rollBack d lock).2 ((ledger d).erase lock) := by
  cases hl : (ledger d).lookup lock with
  | none =>
    have hsame : (ledger d).erase lock = ledger d := by
      apply Finmap.ext_lookup
      intro other
      by_cases he : other = lock
      · rw [he, Finmap.lookup_erase, hl]
      · exact Finmap.lookup_erase_ne he
    rw [rollBack, remove_of_absent hd (Finmap.lookup_eq_none.mp hl), hsame]
    exact ⟨rfl, .refl hd⟩
  | some n =>
    obtain ⟨d', hr, hb⟩ := remove_of_held hd hl
    rw [rollBack, hr]
    exact ⟨rfl, hb⟩

end LockElision
