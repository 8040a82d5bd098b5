import LockElision.Config.Sizing
import LockElision.Proofs.Directory.Pool
import LockElision.Shield.Admission

/-!
# How large a pooled directory is

A pooled directory has its pool and its buckets from the sizing it was made with (`SizedBy`), the
buckets rounded up to a power of two. What a shield does to it changes neither (`LeadsTo`).
-/

namespace LockElision

/-! ## Sizings -/

namespace PoolSizing

/-- Neither more nodes nor more buckets than there may be, and at least one bucket. -/
structure Valid (s : PoolSizing) : Prop where
  pool : s.poolSize.toNat ≤ poolLimit
  some_bucket : s.bucketCount ≠ 0
  buckets : s.bucketCount.toNat ≤ poolLimit

theorem validate_cases (s : PoolSizing) :
    (s.Valid ∧ s.validate = .ok ()) ∨ (¬ s.Valid ∧ ∃ fault, s.validate = .error fault) := by
  by_cases hpool : poolLimit < s.poolSize.toNat
  · exact .inr ⟨fun h => absurd h.pool (by omega), _, if_pos hpool⟩
  · by_cases hbuckets : s.bucketCount = 0 ∨ poolLimit < s.bucketCount.toNat
    · refine .inr ⟨fun h => ?_, _, (if_neg hpool).trans (if_pos hbuckets)⟩
      exact hbuckets.elim h.some_bucket (Nat.not_lt.mpr h.buckets)
    · obtain ⟨hsome, hmany⟩ := not_or.mp hbuckets
      exact .inl ⟨⟨Nat.le_of_not_lt hpool, hsome, Nat.le_of_not_lt hmany⟩,
        (if_neg hpool).trans (if_neg hbuckets)⟩

theorem validate_ok_iff {s : PoolSizing} : s.validate = .ok () ↔ s.Valid := by
  rcases s.validate_cases with ⟨hvalid, hok⟩ | ⟨hinvalid, fault, herror⟩
  · exact ⟨fun _ => hvalid, fun _ => hok⟩
  · rw [herror]
    exact ⟨fun h => (nomatch h), fun h => absurd h hinvalid⟩

theorem validate_error_iff {s : PoolSizing} {fault : ConfigFault} : s.validate = .error fault ↔
    (poolLimit < s.poolSize.toNat ∧ fault = .poolTooLarge s.poolSize.toNat) ∨
    (s.poolSize.toNat ≤ poolLimit ∧
      (s.bucketCount = 0 ∨ poolLimit < s.bucketCount.toNat) ∧
      fault = .bucketsOutOfRange s.bucketCount.toNat) := by
  unfold validate
  by_cases hpool : poolLimit < s.poolSize.toNat
  · simp [hpool, eq_comm]
  · by_cases hbuckets : s.bucketCount = 0 ∨ poolLimit < s.bucketCount.toNat
    · simp [hpool, hbuckets, Nat.le_of_not_lt hpool, eq_comm]
    · simp [hpool, hbuckets]

instance (s : PoolSizing) : Decidable s.Valid :=
  decidable_of_iff (s.poolSize.toNat ≤ poolLimit ∧ s.bucketCount ≠ 0 ∧
      s.bucketCount.toNat ≤ poolLimit)
    ⟨fun h => ⟨h.1, h.2.1, h.2.2⟩, fun h => ⟨h.pool, h.some_bucket, h.buckets⟩⟩

end PoolSizing

namespace PooledDirectory

open Directory LawfulDirectory

variable {d d' : PooledDirectory}

/-- The nodes of the pool, and the buckets. -/
def sizes (d : PooledDirectory) : Nat × Nat := (d.poolSize, d.bucketCount)

/-- The directory has the pool of a sizing, and its buckets rounded up to a power of two. -/
structure SizedBy (d : PooledDirectory) (s : PoolSizing) : Prop where
  pool : d.poolSize = s.poolSize.toNat
  /-- The nodes of the pool are there: each is free or in a chain. -/
  nodes : d.free.length + d.origins.count .pool = s.poolSize.toNat
  buckets : IsLeast {p | p.isPowerOfTwo ∧ s.bucketCount.toNat ≤ p} d.bucketCount

/-! ## What is done to a directory -/

/-- The first directory, if it is in order, may turn into the second: that one is in order too, and
was made alike. -/
def LeadsTo (d d' : PooledDirectory) : Prop :=
  d.Sound → d.Stocked [] → d'.Sound ∧ d'.Stocked [] ∧ d.Alike d'

theorem LeadsTo.refl (d : PooledDirectory) : d.LeadsTo d := fun hd hs => ⟨hd, hs, .refl d⟩

theorem LeadsTo.trans {d'' : PooledDirectory} (h : d.LeadsTo d') (h' : d'.LeadsTo d'') :
    d.LeadsTo d'' := by
  intro hd hs
  obtain ⟨hd', hs', halike⟩ := h hd hs
  obtain ⟨hd'', hs'', halike'⟩ := h' hd' hs'
  exact ⟨hd'', hs'', halike.trans halike'⟩

theorem leadsTo_of_change (h : d.Sound → ∃ c notices, Change d c d' notices) : d.LeadsTo d' := by
  intro hd hs
  obtain ⟨c, notices, hchange⟩ := h hd
  have htended := hchange.tended hd hs
  exact ⟨htended.sound, htended.stocked, hchange.alike⟩

theorem leadsTo_admission (d : PooledDirectory) (lock : LockId) (mode : Reentrancy) :
    d.LeadsTo (admission d lock mode).2.1 := by
  refine leadsTo_of_change fun hd => ?_
  have hcontains := contains_eq (d := d) hd lock
  unfold admission
  split
  case isTrue =>
    cases mode with
    | strict => exact ⟨.size, [], .same⟩
    | reentrant =>
      cases hi : Directory.increment d lock with
      | none => exact ⟨.size, [], .same⟩
      | some r => exact ⟨.size, [], increment_change hd hi⟩
  case isFalse habsent =>
    have hm : lock ∉ ledger d := fun hm =>
      habsent (hcontains.trans (Finmap.lookup_isSome.mpr hm))
    cases hp : Directory.place d lock with
    | placed d' notice => exact ⟨.insert lock, _, .placed hm hp⟩
    | full n => exact ⟨.size, [], .same⟩

theorem leadsTo_withdrawal (d : PooledDirectory) (lock : LockId) (mode : Reentrancy) :
    d.LeadsTo (withdrawal d lock mode).2 := by
  refine leadsTo_of_change fun hd => ⟨.size, [], ?_⟩
  cases mode with
  | reentrant =>
    unfold withdrawal
    cases h : Directory.decrement d lock with
    | none => exact .same
    | some r =>
      obtain ⟨_ | k, d'⟩ := r
      · exact decrement_change hd h
      · exact decrement_change hd h
  | strict =>
    unfold withdrawal
    cases h : Directory.remove d lock with
    | none => exact .same
    | some r => exact remove_change hd h

theorem leadsTo_rollBack (d : PooledDirectory) (lock : LockId) :
    d.LeadsTo (LockElision.rollBack d lock).2 := by
  refine leadsTo_of_change fun hd => ⟨.size, [], ?_⟩
  unfold LockElision.rollBack
  cases h : Directory.remove d lock with
  | none => exact .same
  | some r => exact remove_change hd h

/-- Whatever was done to it, a directory has the sizing it was made with. -/
theorem sizedBy_of_leadsTo {hash : LockId → UInt64} {s : PoolSizing}
    (h : (s.directory hash).LeadsTo d) : d.SizedBy s ∧ d.sizes = (s.directory hash).sizes := by
  obtain ⟨-, hs, halike⟩ := h (sound_create ..).1 (stocked_create ..)
  have hpool : d.poolSize = s.poolSize.toNat := halike.pool
  refine ⟨⟨hpool, ?_, ?_⟩, Prod.ext halike.pool halike.chains⟩
  · have hnodes : d.origins.count .pool + d.freeCount = d.poolSize := hs.pool
    rw [hs.free_length, Nat.add_comm, hnodes, hpool]
  · show IsLeast _ d.chains.size
    rw [halike.chains]
    exact isLeast_chains_create ..

end PooledDirectory

end LockElision
