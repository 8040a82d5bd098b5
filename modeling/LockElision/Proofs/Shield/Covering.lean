import LockElision.Proofs.Shield.Sighting

/-!
# A pooled directory in place of a slot table

A slot table refuses what it has no room for, and from the first refusal on the two kinds of
directory go separate ways: a lock that was refused may be entered later, with fewer levels than the
pooled directory has of it, and a strict call then ends differently. What stays is that the pooled
directory has every lock of the slot table, at least as deep (`Ledger.Covers`). So nothing that
could be left in the one is missing in the other.
-/

namespace LockElision

namespace Ledger

variable {capacity : Option Nat} {m m' : Ledger} {lock : LockId} {mode : Reentrancy} {n : Nat}

/-- Every lock of `m` is in `m'` at least as deep; and `m'` has no lock at depth 0. -/
structure Covers (m m' : Ledger) : Prop where
  deeper : ∀ {lock n}, m.lookup lock = some n → ∃ k, m'.lookup lock = some k ∧ n ≤ k
  positive : ∀ {lock k}, m'.lookup lock = some k → 1 ≤ k

theorem Covers.absent (h : Covers m m') (hl : m'.lookup lock = none) : m.lookup lock = none := by
  cases hn : m.lookup lock with
  | none => rfl
  | some n =>
    obtain ⟨k, hk, -⟩ := h.deeper hn
    rw [hl] at hk
    cases hk

theorem lookup_enter_cases (h : (m.enter capacity lock mode).2.lookup lock = some n) :
    (m.lookup lock = none ∧ n = 1) ∨
      ∃ k, m.lookup lock = some k ∧ n = if mode = .reentrant then k + 1 else k := by
  cases hl : m.lookup lock with
  | none =>
    rw [enter_of_absent hl] at h
    split at h
    · rw [Finmap.lookup_insert] at h
      exact .inl ⟨rfl, (Option.some.inj h).symm⟩
    · rw [hl] at h; cases h
  | some k =>
    refine .inr ⟨k, rfl, ?_⟩
    cases mode with
    | reentrant =>
      rw [enter_reentrant hl, Finmap.lookup_insert] at h
      exact (Option.some.inj h).symm
    | strict =>
      rw [enter_strict hl, hl] at h
      exact (Option.some.inj h).symm

theorem lookup_enter_unbounded (m : Ledger) (lock : LockId) (mode : Reentrancy) :
    ∃ n, (m.enter none lock mode).2.lookup lock = some n := by
  cases hl : m.lookup lock with
  | none =>
    rw [enter_unbounded hl]
    exact ⟨1, Finmap.lookup_insert _⟩
  | some k =>
    cases mode with
    | reentrant =>
      rw [enter_reentrant hl]
      exact ⟨k + 1, Finmap.lookup_insert _⟩
    | strict =>
      rw [enter_strict hl]
      exact ⟨k, hl⟩

theorem lookup_withdraw_cases (h : (m.withdraw lock mode).2.lookup lock = some n) :
    m.lookup lock = some (n + 1) ∧ 1 ≤ n ∧ mode = .reentrant := by
  cases hl : m.lookup lock with
  | none => rw [withdraw_of_absent hl, hl] at h; cases h
  | some k =>
    cases mode with
    | strict => rw [withdraw_strict hl, Finmap.lookup_erase] at h; cases h
    | reentrant =>
      rw [withdraw_reentrant hl] at h
      split at h
      · rw [Finmap.lookup_insert] at h
        obtain rfl := Option.some.inj h
        exact ⟨congrArg some (by omega), by omega, rfl⟩
      · rw [Finmap.lookup_erase] at h; cases h

theorem Covers.enter (h : Covers m m') (lock : LockId) (mode : Reentrancy) :
    Covers (m.enter capacity lock mode).2 (m'.enter none lock mode).2 := by
  have hpos {k : Nat} (hk : (m'.enter none lock mode).2.lookup lock = some k) : 1 ≤ k := by
    rcases lookup_enter_cases hk with ⟨-, rfl⟩ | ⟨j, hj, rfl⟩
    · exact Nat.le_refl 1
    · have := h.positive hj
      split <;> omega
  constructor
  · intro other n hn
    by_cases he : other = lock
    · subst he
      obtain ⟨k, hk⟩ := m'.lookup_enter_unbounded other mode
      refine ⟨k, hk, ?_⟩
      rcases lookup_enter_cases hn with ⟨-, rfl⟩ | ⟨j, hj, rfl⟩
      · exact hpos hk
      · obtain ⟨i, hi, hle⟩ := h.deeper hj
        rcases lookup_enter_cases hk with ⟨hnone, -⟩ | ⟨i', hi', rfl⟩
        · rw [hi] at hnone; cases hnone
        · obtain rfl : i = i' := Option.some.inj (hi.symm.trans hi')
          split <;> omega
    · rw [lookup_enter_ne he] at hn ⊢
      exact h.deeper hn
  · intro other k hk
    by_cases he : other = lock
    · subst he; exact hpos hk
    · rw [lookup_enter_ne he] at hk
      exact h.positive hk

theorem Covers.withdraw (h : Covers m m') (lock : LockId) (mode : Reentrancy) :
    Covers (m.withdraw lock mode).2 (m'.withdraw lock mode).2 := by
  constructor
  · intro other n hn
    by_cases he : other = lock
    · subst he
      obtain ⟨hbefore, hn, rfl⟩ := lookup_withdraw_cases hn
      obtain ⟨k, hk, hle⟩ := h.deeper hbefore
      rw [withdraw_reentrant hk, if_pos (by omega)]
      exact ⟨k - 1, Finmap.lookup_insert _, by omega⟩
    · rw [lookup_withdraw_ne he] at hn ⊢
      exact h.deeper hn
  · intro other k hk
    by_cases he : other = lock
    · subst he; exact (lookup_withdraw_cases hk).2.1
    · rw [lookup_withdraw_ne he] at hk
      exact h.positive hk

end Ledger

/-- The same call, made where at least as much is held and nothing is refused. -/
structure Sighting.CoveredBy (x y : Sighting) : Prop where
  accepted : y.refused = false
  /-- What was left in the one place was there to be left in the other. -/
  balanced : x.ended = .ok (.released .nested) ∨ x.ended = .ok (.released .left) →
    y.ended ≠ .ok (.released .unbalanced)

namespace Ledger

variable {capacity : Option Nat} {m m' : Ledger}

theorem absent_of_unbalanced {lock : LockId} {mode : Reentrancy}
    (h : (m.withdraw lock mode).1 = .unbalanced) : m.lookup lock = none := by
  cases hl : m.lookup lock with
  | none => rfl
  | some n =>
    cases mode with
    | strict => rw [withdraw_strict hl] at h; cases h
    | reentrant =>
      rw [withdraw_reentrant hl] at h
      split at h <;> cases h

/-- **One call** keeps one map covered by the other. -/
theorem Covers.observe (h : Covers m m') (capacity : Option Nat) (side : Side) (c : Call) :
    Covers (m.observe capacity side c).2 (m'.observe none side c).2 ∧
      (m.observe capacity side c).1.CoveredBy (m'.observe none side c).1 := by
  cases side with
  | lock =>
    refine ⟨h.enter c.lock c.mode, accepted_of_unbounded, ?_⟩
    rintro (hended | hended) <;> cases hended
  | unlock =>
    refine ⟨h.withdraw c.lock c.mode, accepted_of_unbounded, fun hended hmissed => ?_⟩
    have hmissed : (m'.withdraw c.lock c.mode).1 = .unbalanced :=
      CallStatus.released.inj (Except.ok.inj hmissed)
    have habsent : m'.lookup c.lock = none := absent_of_unbalanced hmissed
    simp only [Ledger.observe, call, withdraw_of_absent (h.absent habsent)] at hended
    rcases hended with hended | hended <;> cases hended

/-- **A run of calls** keeps one map covered by the other. -/
theorem Covers.watch (capacity : Option Nat) (calls : List (Side × Call)) :
    ∀ {m m' : Ledger}, Covers m m' →
    Covers (m.watch capacity calls).2 (m'.watch none calls).2 ∧
      List.Forall₂ Sighting.CoveredBy (m.watch capacity calls).1 (m'.watch none calls).1 := by
  induction calls with
  | nil => exact fun h => ⟨h, .nil⟩
  | cons first calls ih =>
    intro m m' h
    obtain ⟨side, c⟩ := first
    obtain ⟨hstep, hseen⟩ := h.observe capacity side c
    obtain ⟨hend, hrest⟩ := ih hstep
    exact ⟨hend, .cons hseen hrest⟩

theorem covers_empty : Covers ∅ ∅ := by
  constructor
  all_goals
    intro lock n h
    rw [Finmap.lookup_empty] at h
    cases h

end Ledger

namespace Shield

open LawfulDirectory

variable {W : Type}

/-- **A pooled directory may always take the place of a slot table**, of any length, whatever its
hash, its pool and its number of buckets. Until the slot table refuses a call for the first time,
both shields are seen to do the same, and the world has become the same. At any time, refusals or
not, a lock recorded in the table is recorded in the pooled directory at least as deep. So the
pooled directory, which never refuses a call, has whatever the slot table has to give back. -/
theorem pooled_covers_bounded (real : Real W) (world : W) (n : Nat) (hash : LockId → UInt64)
    (poolSize buckets : Nat) (calls : List (Side × Call)) :
    let bounded := (⟨SlotTable.empty n, world⟩ : Shield (SlotTable n) W).watch real
    let pooled :=
      (⟨PooledDirectory.create hash poolSize buckets, world⟩ : Shield PooledDirectory W).watch real
    (∀ before, before <+: calls → Unrefused (bounded before).1 →
      (pooled before).1 = (bounded before).1 ∧
        (pooled before).2.world = (bounded before).2.world) ∧
    (∀ before, before <+: calls → ∀ lock h,
      Directory.find? (bounded before).2.directory lock = some h →
      ∃ h', Directory.find? (pooled before).2.directory lock = some h' ∧ h.depth ≤ h'.depth) ∧
    List.Forall₂ Sighting.CoveredBy (bounded calls).1 (pooled calls).1 := by
  intro bounded pooled
  have hbounded := watch_table real world n
  have hpooled := watch_pool real world hash poolSize buckets
  refine ⟨fun before _ hunrefused => ?_, fun before _ lock h hfound => ?_, ?_⟩
  · obtain ⟨hseen, -, hworld⟩ := hbounded before
    obtain ⟨hseen', -, hworld'⟩ := hpooled before
    have hsame := Ledger.watch_of_unrefused before ∅ (hseen ▸ hunrefused)
    rw [hsame] at hseen hworld
    exact ⟨hseen'.trans hseen.symm, hworld'.trans hworld.symm⟩
  · obtain ⟨-, hb, -⟩ := hbounded before
    obtain ⟨-, hb', -⟩ := hpooled before
    have hdepth := lookup_ledger hb.sound lock
    rw [hfound, hb.ledger] at hdepth
    obtain ⟨k, hk, hle⟩ := (Ledger.covers_empty.watch (some n) before).1.deeper hdepth
    rw [← hb'.ledger, lookup_ledger hb'.sound, Option.map_eq_some_iff] at hk
    obtain ⟨h', hfound', rfl⟩ := hk
    exact ⟨h', hfound', hle⟩
  · have hrun := (Ledger.covers_empty.watch (some n) calls).2
    rwa [← (hbounded calls).1, ← (hpooled calls).1] at hrun

/-- A table of one slot refuses a lock and takes it later, at a level less than the pooled directory
then has. -/
theorem pooled_covers_bounded_refused :
    let calls : List (Side × Call) :=
      [(.lock, ⟨⟨1⟩, .reentrant, []⟩), (.lock, ⟨⟨2⟩, .strict, [7]⟩), (.unlock, ⟨⟨1⟩, .strict, []⟩),
        (.lock, ⟨⟨2⟩, .reentrant, []⟩)]
    let bounded := (⟨SlotTable.empty 1, ()⟩ : Shield (SlotTable 1) Unit).watch (fun _ _ w => w)
    let pooled :=
      (⟨PooledDirectory.create (fun _ => 0) 1 1, ()⟩ : Shield PooledDirectory Unit).watch
        (fun _ _ w => w)
    (bounded calls).1.map Sighting.refused = [false, true, false, false] ∧
      Directory.find? (bounded calls).2.directory ⟨2⟩ = some ⟨⟨2⟩, 1⟩ ∧
      (∃ h, Directory.find? (pooled calls).2.directory ⟨2⟩ = some h ∧ 1 ≤ h.depth) ∧
      (pooled (calls.take 1)).1 = (bounded (calls.take 1)).1 ∧
      List.Forall₂ Sighting.CoveredBy (bounded calls).1 (pooled calls).1 := by
  intro calls bounded pooled
  obtain ⟨hsame, hdeeper, hcovered⟩ :=
    pooled_covers_bounded (fun _ _ w => w) () 1 (fun _ => 0) 1 1 calls
  have hfound : Directory.find? (bounded calls).2.directory ⟨2⟩ = some ⟨⟨2⟩, 1⟩ := by
    decide +kernel
  have hfirst : Unrefused (bounded (calls.take 1)).1 := by
    unfold Unrefused
    decide +kernel
  exact ⟨by decide +kernel, hfound, hdeeper calls (List.prefix_refl _) _ _ hfound,
    (hsame _ (List.take_prefix ..) hfirst).1, hcovered⟩

end Shield

end LockElision
