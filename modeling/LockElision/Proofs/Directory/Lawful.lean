import LockElision.Directory.Basic
import LockElision.Proofs.Ledger

/-!
# Lawful directories

`LawfulDirectory D` says that the operations of a kind of directory are those of a finite map. The
predicate `Sound` is the kind's own invariant; `Directory.ledger` is the map a directory stands for.
Each operation comes with one law for every case the map can tell apart, and no law mentions how the
directory is laid out, so what is proved from them holds of slot tables and of pooled directories.
-/

namespace LockElision

/-- The finite map a directory stands for. -/
def Directory.ledger {D : Type} [Directory D] (d : D) : Ledger :=
  Ledger.ofHoldings (Directory.holdings d)

/-- `d` turns into `d'`: the invariant holds again, and the ledger is now `m`. -/
structure Becomes {D : Type} [Directory D] (Sound : D → Prop) (d d' : D) (m : Ledger) : Prop where
  sound : Sound d'
  capacity : Directory.capacity d' = Directory.capacity d
  ledger : Directory.ledger d' = m

theorem Becomes.refl {D : Type} [Directory D] {Sound : D → Prop} {d : D} (hd : Sound d) :
    Becomes Sound d d (Directory.ledger d) :=
  ⟨hd, rfl, rfl⟩

open Directory

class LawfulDirectory (D : Type) [Directory D] where
  Sound : D → Prop
  distinct {d : D} : Sound d → Distinct (holdings d)
  positive {d : D} : Sound d → ∀ h ∈ holdings d, 1 ≤ h.depth
  size_eq {d : D} : Sound d → size d = (holdings d).length
  find?_eq {d : D} {lock : LockId} : Sound d → find? d lock = (holdings d).find? (·.lock == lock)
  place_of_room {d : D} {lock : LockId} : Sound d → lock ∉ ledger d → hasRoom d = true →
    ∃ d' notice, place d lock = .placed d' notice ∧ Becomes Sound d d' ((ledger d).insert lock 1)
  place_of_full {d : D} : Sound d → hasRoom d = false →
    ∀ lock, ∃ n, capacity d = some n ∧ place d lock = .full n
  increment_of_absent {d : D} {lock : LockId} : Sound d → lock ∉ ledger d → increment d lock = none
  increment_of_held {d : D} {lock : LockId} {n : Nat} : Sound d → (ledger d).lookup lock = some n →
    ∃ d', increment d lock = some (n + 1, d') ∧ Becomes Sound d d' ((ledger d).insert lock (n + 1))
  decrement_of_absent {d : D} {lock : LockId} : Sound d → lock ∉ ledger d → decrement d lock = none
  decrement_of_nested {d : D} {lock : LockId} {n : Nat} : Sound d →
    (ledger d).lookup lock = some n → 1 < n →
    ∃ d', decrement d lock = some (n - 1, d') ∧ Becomes Sound d d' ((ledger d).insert lock (n - 1))
  decrement_of_last {d : D} {lock : LockId} : Sound d → (ledger d).lookup lock = some 1 →
    ∃ d', decrement d lock = some (0, d') ∧ Becomes Sound d d' ((ledger d).erase lock)
  remove_of_absent {d : D} {lock : LockId} : Sound d → lock ∉ ledger d → remove d lock = none
  remove_of_held {d : D} {lock : LockId} {n : Nat} : Sound d → (ledger d).lookup lock = some n →
    ∃ d', remove d lock = some (⟨lock, n⟩, d') ∧ Becomes Sound d d' ((ledger d).erase lock)
  clear_law {d : D} : Sound d → Becomes Sound d (clear d) ∅

namespace LawfulDirectory

variable {D : Type} [Directory D] [LawfulDirectory D] {d : D} {lock : LockId} {n : Nat}

theorem lookup_ledger (hd : Sound d) (lock : LockId) :
    (ledger d).lookup lock = (find? d lock).map Holding.depth := by
  rw [find?_eq hd]; exact Ledger.lookup_ofHoldings ..

theorem find?_eq_map (hd : Sound d) (lock : LockId) :
    find? d lock = ((ledger d).lookup lock).map (Holding.mk lock) := by
  rw [lookup_ledger hd]
  cases hf : find? d lock with
  | none => rfl
  | some h =>
    rw [find?_eq hd] at hf
    have hl : h.lock = lock := by simpa using List.find?_some hf
    subst hl; rfl

theorem contains_eq (hd : Sound d) (lock : LockId) :
    contains d lock = ((ledger d).lookup lock).isSome := by
  rw [lookup_ledger hd, Option.isSome_map]; rfl

theorem size_ledger (hd : Sound d) : size d = (ledger d).size := by
  rw [size_eq hd]; exact (Ledger.size_ofHoldings (distinct hd)).symm

theorem hasRoom_ledger (hd : Sound d) : hasRoom d = (ledger d).hasRoom (capacity d) := by
  rw [Directory.hasRoom, size_ledger hd]; rfl

theorem entries_ledger (hd : Sound d) :
    (ledger d).entries = ↑((holdings d).map Holding.entry) :=
  Ledger.entries_ofHoldings (distinct hd)

theorem depth_pos (hd : Sound d) (h : (ledger d).lookup lock = some n) : 1 ≤ n := by
  rw [lookup_ledger hd, Option.map_eq_some_iff] at h
  obtain ⟨h, hf, rfl⟩ := h
  rw [find?_eq hd] at hf
  exact positive hd h (List.mem_of_find?_eq_some hf)

/-- A lock that is placed was given room. -/
theorem placed_becomes {d' : D} {notice : Option Exhaustion} (hd : Sound d) (hm : lock ∉ ledger d)
    (hp : place d lock = .placed d' notice) : Becomes Sound d d' ((ledger d).insert lock 1) := by
  cases hr : hasRoom d with
  | true =>
    obtain ⟨d₁, notice₁, hp₁, hb⟩ := place_of_room hd hm hr
    rw [hp] at hp₁
    obtain ⟨rfl, -⟩ := Placement.placed.inj hp₁
    exact hb
  | false =>
    obtain ⟨n, -, hfull⟩ := place_of_full hd hr lock
    rw [hp] at hfull
    cases hfull

end LawfulDirectory

end LockElision
