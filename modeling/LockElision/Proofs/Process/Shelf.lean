import LockElision.Process.Shelf
import LockElision.Proofs.Directory.Pooled
import LockElision.Proofs.Directory.Slots

/-!
# Ledgers of a thread's directories

Each directory of a pair stands for a ledger; a pooled one that was not made yet stands for the
empty one. Using one directory changes its own ledger only (`Shelf.use_law`), and how it changes is
what a lawful directory of that capacity would do.
-/

namespace LockElision

/-- The most locks a directory of this kind can hold. -/
def Backing.capacity : Backing → Option Nat
  | bounded => some tableCapacity
  | pooled => none

namespace Shelf

variable {shelf shelf' : Shelf} {backing : Backing} {m : Ledger} {lock : LockId}

def ledger (shelf : Shelf) : Backing → Ledger
  | .bounded => Directory.ledger shelf.bounded
  | .pooled => (shelf.pooled.map Directory.ledger).getD ∅

structure Sound (shelf : Shelf) : Prop where
  bounded : shelf.bounded.Sound
  pooled : ∀ d, shelf.pooled = some d → d.Sound

theorem sound_fresh : fresh.Sound := ⟨(SlotTable.sound_empty _).1, fun _ h => by cases h⟩

theorem ledger_fresh (backing : Backing) : fresh.ledger backing = ∅ := by
  cases backing with
  | bounded => exact SlotTable.ledger_empty _
  | pooled => rfl

theorem depth_pos (hs : shelf.Sound) {n : Nat} (h : (shelf.ledger backing).lookup lock = some n) :
    1 ≤ n := by
  cases backing with
  | bounded => exact LawfulDirectory.depth_pos (d := shelf.bounded) hs.bounded h
  | pooled =>
    rw [ledger] at h
    cases hp : shelf.pooled with
    | none => rw [hp] at h; cases h
    | some d =>
      rw [hp] at h
      exact LawfulDirectory.depth_pos (d := d) (hs.pooled d hp) h

/-- One directory of the pair comes to stand for `m`, and the other one for what it did. -/
structure Becomes (shelf shelf' : Shelf) (backing : Backing) (m : Ledger) : Prop where
  sound : shelf'.Sound
  ledger : shelf'.ledger backing = m
  other : ∀ b, b ≠ backing → shelf'.ledger b = shelf.ledger b

theorem Becomes.lookup_eq (h : Becomes shelf shelf' backing m)
    (hm : m.lookup lock = (shelf.ledger backing).lookup lock) (b : Backing) :
    (shelf'.ledger b).lookup lock = (shelf.ledger b).lookup lock := by
  by_cases hb : b = backing
  · rw [hb, h.ledger, hm]
  · rw [h.other b hb]

theorem openPooled_law {make : PooledDirectory} (hs : shelf.Sound) (hmake : make.Sound)
    (hempty : Directory.ledger make = ∅) : (shelf.openPooled make).Sound ∧
      Directory.ledger (shelf.openPooled make) = shelf.ledger .pooled := by
  rw [openPooled, ledger]
  cases hp : shelf.pooled with
  | none => exact ⟨hmake, hempty⟩
  | some d => exact ⟨hs.pooled d hp, rfl⟩

/-- Using a directory of the pair is using a lawful directory with the same ledger. -/
theorem use_law {α : Type} (make : PooledDirectory) {f : {D : Type} → [Inspectable D] → D → α × D}
    {P : α → Prop} (hs : shelf.Sound) (hmake : make.Sound) (hempty : Directory.ledger make = ∅)
    (hf : ∀ {D : Type} [Inspectable D] [LawfulDirectory D] (d : D), LawfulDirectory.Sound d →
      Directory.capacity d = backing.capacity → Directory.ledger d = shelf.ledger backing →
      P (f d).1 ∧ LockElision.Becomes (LawfulDirectory.Sound (D := D)) d (f d).2 m) :
    P (shelf.use make backing f).1 ∧ shelf.Becomes (shelf.use make backing f).2 backing m := by
  cases backing with
  | bounded =>
    obtain ⟨hp, hb⟩ := hf shelf.bounded hs.bounded rfl rfl
    refine ⟨hp, ⟨hb.sound, hs.pooled⟩, hb.ledger, fun b hne => ?_⟩
    cases b with
    | bounded => exact absurd rfl hne
    | pooled => rfl
  | pooled =>
    have hopen := openPooled_law hs hmake hempty
    obtain ⟨hp, hb⟩ := hf (shelf.openPooled make) hopen.1 rfl hopen.2
    refine ⟨hp, ⟨hs.bounded, fun d hd => ?_⟩, hb.ledger, fun b hne => ?_⟩
    · obtain rfl := Option.some.inj hd
      exact hb.sound
    · cases b with
      | bounded => rfl
      | pooled => exact absurd rfl hne

/-! ## Directories that are looked into -/

/-- What one directory of the pair records. -/
def records (shelf : Shelf) : Backing → List Holding
  | .bounded => shelf.bounded.holdings
  | .pooled => (shelf.pooled.map PooledDirectory.holdings).getD []

/-- The pair after one of its directories was looked into: a pooled one has been made. -/
def opened (make : PooledDirectory) (backing : Backing) (shelf : Shelf) : Shelf :=
  match backing with
  | .bounded => shelf
  | .pooled => { shelf with pooled := some (shelf.openPooled make) }

theorem records_opened {make : PooledDirectory} (hempty : make.holdings = []) (b b' : Backing) :
    (shelf.opened make b).records b' = shelf.records b' := by
  cases b with
  | bounded => rfl
  | pooled =>
    cases b' with
    | bounded => rfl
    | pooled =>
      simp only [records, opened, openPooled]
      cases shelf.pooled with
      | none => exact hempty
      | some d => rfl

theorem use_opened {α : Type} (make make' : PooledDirectory)
    (f : {D : Type} → [Inspectable D] → D → α × D) :
    (shelf.opened make backing).use make' backing f = shelf.use make backing f := by
  cases backing <;> rfl

/-- A use that gives its directory back as it was is a look. -/
theorem use_same {α : Type} (make : PooledDirectory)
    {f : {D : Type} → [Inspectable D] → D → α × D} (hs : shelf.Sound) (hmake : make.Sound)
    (hempty : Directory.ledger make = ∅)
    (hf : ∀ {D : Type} [Inspectable D] [LawfulDirectory D] (d : D), LawfulDirectory.Sound d →
      Directory.capacity d = backing.capacity → Directory.ledger d = shelf.ledger backing →
      (f d).2 = d) : (shelf.use make backing f).2 = shelf.opened make backing := by
  cases backing with
  | bounded =>
    have hsame := hf shelf.bounded hs.bounded rfl rfl
    simp only [use, opened, hsame]
  | pooled =>
    have hopen := openPooled_law hs hmake hempty
    have hsame := hf (shelf.openPooled make) hopen.1 rfl hopen.2
    simp only [use, opened, hsame]

end Shelf

end LockElision
