import LockElision.Proofs.Directory.Restoring
import LockElision.Proofs.Shield.Admission

/-!
# Acquires taken back

An acquire that let its thread in is taken back by the next release of the lock, provided the
directory came back in the meantime to what the acquire had made of it. The release answers by a
real call exactly if the acquire did, and the directory is what it was before the acquire, but for
the nodes that were made and thrown away. An acquire that was refused has nothing to take back.
-/

namespace LockElision

open Directory LawfulDirectory ReversibleDirectory RestoringDirectory

/-- The status of the release that takes an acquire back. -/
def AcquireStatus.takenBack (status : AcquireStatus) : ReleaseStatus :=
  if status.forwarded then .left else .nested

variable {D : Type} [Directory D] [LawfulDirectory D] [ReversibleDirectory D] {d d' : D}
  {id : LockId} {mode : Reentrancy} {status : AcquireStatus} {notice : Option Exhaustion}

/-- What taking back comes to: `d'` is what an acquire made of `d`. -/
structure Reversal (d : D) (id : LockId) (mode : Reentrancy) (status : AcquireStatus) (d' : D)
    (notice : Option Exhaustion) : Prop where
  fit : Fit d'
  /-- Of so many locks to come, as many need a node that is made as before. -/
  dry : ∀ k, RestoringDirectory.dry d (k + status.forwarded.toNat) =
    notice.toList.length + RestoringDirectory.dry d' k
  withdrawal : ∀ made, withdrawal (spent d' made) id mode =
    (status.takenBack, spent d (notice.toList.length + made))

theorem reversal_entered (hd : Fit d) (hm : id ∉ ledger d)
    (hp : place d id = .placed d' notice) (mode : Reentrancy) :
    Reversal d id mode .entered d' notice := by
  obtain ⟨hd', hdry, hremove⟩ := RestoringDirectory.place hd hm hp
  refine ⟨hd', hdry, fun made => ?_⟩
  cases mode with
  | strict => simp only [withdrawal, hremove made]; rfl
  | reentrant => simp only [withdrawal, decrement_of_remove (hremove made)]; rfl

theorem reversal_nested {n depth : Nat} (hd : Fit d) (hl : (ledger d).lookup id = some n)
    (hi : increment d id = some (depth, d')) : Reversal d id .reentrant .nested d' none := by
  obtain ⟨hd', hdry, hback⟩ := decrement_increment hd hl hi
  obtain ⟨k, rfl⟩ : ∃ k, n = k + 1 := ⟨n - 1, by have := depth_pos (sound hd) hl; omega⟩
  refine ⟨hd', fun k => ?_, fun made => ?_⟩
  · rw [hdry k]
    exact (Nat.zero_add _).symm
  · have hnone : (none : Option Exhaustion).toList.length + made = made := Nat.zero_add made
    simp only [withdrawal, hback made, hnone]
    rfl

/-- **An acquire** that let its thread in can be taken back. -/
theorem admission_reversal (hd : Fit d) (h : admission d id mode = (status, d', notice))
    (hheld : status.isHeld = true) : Reversal d id mode status d' notice := by
  have hs := sound hd
  have hc := contains_eq hs id
  cases hl : (ledger d).lookup id with
  | none =>
    have hm := Finmap.lookup_eq_none.mp hl
    cases hp : place d id with
    | placed d₁ notice₁ =>
      rw [admission_of_placed hs hm hp mode] at h
      cases h
      exact reversal_entered hd hm hp mode
    | full n =>
      rw [admission_of_full hs hm hp mode] at h
      cases h
      cases hheld
  | some n =>
    rw [hl] at hc
    cases mode with
    | strict =>
      simp only [admission, hc] at h
      cases h
      cases hheld
    | reentrant =>
      obtain ⟨d₁, hi, -⟩ := increment_of_held hs hl
      simp only [admission, hc, hi] at h
      cases h
      exact reversal_nested hd hl hi

end LockElision
