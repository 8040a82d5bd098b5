import LockElision.Proofs.Bench.Shift

/-!
# The order of locks

Above a lock of the hierarchy a worker enters only locks of higher levels, and above any other lock
only the same one again, and only if that may be entered twice. A plan that passes its checks keeps
to this in every shift, refusals included, and each shift leaves what it enters.
-/

namespace LockElision

/-- The second lock may be entered by whoever is inside the first. -/
def BenchLock.Below : BenchLock → BenchLock → Prop
  | level i _, level j _ => i < j
  | reentrant, reentrant | shared, shared => True
  | _, _ => False

/-- What is left to do for a worker that is inside some locks, the last one first: it enters only
what lies above them, leaves the last one first, and is outside of all in the end. -/
inductive Orderly : (held : List BenchLock) → (left : List RealStep) → Prop where
  | done : Orderly [] []
  | enter {held : List BenchLock} {lock : BenchLock} {left : List RealStep} :
      (∀ below ∈ held, below.Below lock) → Orderly (lock :: held) left →
      Orderly held (.enter lock :: left)
  | leave {held : List BenchLock} {lock : BenchLock} {left : List RealStep} :
      Orderly held left → Orderly (lock :: held) (.leave lock :: left)

namespace Orderly

variable {held : List BenchLock} {lock : BenchLock} {left : List RealStep}

theorem of_nil (h : Orderly held []) : held = [] := by
  cases h
  rfl

theorem of_enter (h : Orderly held (.enter lock :: left)) :
    (∀ below ∈ held, below.Below lock) ∧ Orderly (lock :: held) left := by
  cases h with
  | enter hbelow h => exact ⟨hbelow, h⟩

theorem of_leave (h : Orderly held (.leave lock :: left)) :
    ∃ rest, held = lock :: rest ∧ Orderly rest left := by
  cases h with
  | leave h => exact ⟨_, rfl, h⟩

end Orderly

theorem round_cons (lock : BenchLock) (path : List BenchLock) :
    round (lock :: path) = .enter lock :: (round path ++ [.leave lock]) :=
  round_ifReal true lock path

theorem orderly_round {path : List BenchLock} (hpath : path.Pairwise BenchLock.Below) :
    ∀ {held : List BenchLock} {left : List RealStep},
      (∀ below ∈ held, ∀ lock ∈ path, below.Below lock) → Orderly held left →
      Orderly held (round path ++ left) := by
  induction hpath with
  | nil => exact fun _ h => h
  | @cons lock path hlock _ ih =>
    intro held left hheld h
    rw [round_cons, List.cons_append, List.append_assoc]
    refine .enter (fun below hb => hheld below hb lock List.mem_cons_self) (ih ?_ (.leave h))
    intro below hb above ha
    rcases List.mem_cons.mp hb with rfl | hb
    · exact hlock above ha
    · exact hheld below hb above (List.mem_cons_of_mem _ ha)

theorem Stair.levels {locksPerLevel level count : Nat} {locks : List BenchLock}
    (h : Stair locksPerLevel level count locks) :
    ∀ lock ∈ locks, ∃ i j, lock = .level i j ∧ level ≤ i := by
  induction h with
  | nil => exact fun _ h => absurd h List.not_mem_nil
  | @cons level _ index _ _ _ ih =>
    intro lock hlock
    rcases List.mem_cons.mp hlock with rfl | hlock
    · exact ⟨level, index, rfl, Nat.le_refl _⟩
    · obtain ⟨i, j, rfl, hi⟩ := ih lock hlock
      exact ⟨i, j, rfl, by omega⟩

theorem Stair.pairwise {locksPerLevel level count : Nat} {locks : List BenchLock}
    (h : Stair locksPerLevel level count locks) : locks.Pairwise BenchLock.Below := by
  induction h with
  | nil => exact .nil
  | @cons level _ index _ _ hrest ih =>
    refine .cons (fun above ha => ?_) ih
    obtain ⟨i, j, rfl, hi⟩ := hrest.levels above ha
    exact hi

namespace Entry

variable {capacity : Option Nat} {address : BenchLock → LockId} {mode : Reentrancy}

theorem shielded_ascent (locks : List BenchLock) : ∀ m : Ledger,
    let path := ((shielded capacity address mode).ascent m locks).1
    (∀ lock ∈ path, m.lookup (address lock) = none) ∧ path.Nodup := by
  induction locks with
  | nil => exact fun _ => ⟨fun _ h => absurd h List.not_mem_nil, List.nodup_nil⟩
  | cons lock locks ih =>
    intro m path
    cases he : shielded capacity address mode m lock with
    | error fault =>
      rw [show path = [] from congrArg Prod.fst (ascent_refused he)]
      exact ⟨fun _ h => absurd h List.not_mem_nil, List.nodup_nil⟩
    | ok entered =>
      obtain ⟨real, m'⟩ := entered
      obtain ⟨hnew, hnodup⟩ := ih m'
      have hne : ∀ n, m' = m.insert (address lock) n → ∀ other,
          m'.lookup (address other) = none →
          address other ≠ address lock ∧ m.lookup (address other) = none := by
        rintro n rfl other hother
        have hne : address other ≠ address lock := fun he => by
          rw [he, Finmap.lookup_insert] at hother; cases hother
        exact ⟨hne, by rwa [Finmap.lookup_insert_of_ne _ hne] at hother⟩
      have hpath : path = ifReal real lock ++ _ := congrArg Prod.fst (ascent_entered he)
      rcases shielded_ok he with ⟨rfl, hl, hm', -⟩ | ⟨rfl, -, n, hl, hm', -⟩
      · rw [hpath]
        refine ⟨fun other hother => ?_, List.nodup_cons.mpr ⟨fun hmem => ?_, hnodup⟩⟩
        · rcases List.mem_cons.mp hother with rfl | hother
          · exact hl
          · exact (hne 1 hm' other (hnew other hother)).2
        · exact (hne 1 hm' lock (hnew lock hmem)).1 rfl
      · rw [hpath]
        exact ⟨fun other hother => (hne (n + 1) hm' other (hnew other hother)).2, hnodup⟩

end Entry

theorem pairwise_of_nodup {n : Nat} {lock : BenchLock} {path : List BenchLock}
    (hsub : path.Sublist (List.replicate n lock)) (hnodup : path.Nodup) :
    path.Pairwise BenchLock.Below := by
  have hall : ∀ other ∈ path, other = lock := fun other hother =>
    List.eq_of_mem_replicate (hsub.subset hother)
  match path with
  | [] => exact .nil
  | [first] => exact List.pairwise_singleton ..
  | first :: second :: rest =>
    have hfirst := hall first List.mem_cons_self
    have hsecond := hall second (List.mem_cons_of_mem _ List.mem_cons_self)
    exact absurd (hfirst.trans hsecond.symm)
      fun he => (List.nodup_cons.mp hnodup).1 (he ▸ List.mem_cons_self)

namespace Plan

variable {p : Plan} {address : BenchLock → LockId} {capacity : Option Nat}
  {locks : List BenchLock} {m : Ledger}

/-- A lock that may be entered once only is behind a shield, when it is to be entered twice. -/
theorem pairwise_nested {path : List BenchLock} {depth : UInt64}
    (hload : p.workload = .nested depth)
    (hsub : path.Sublist (List.replicate depth.toNat (p.workload.lock p.mode)))
    (hnodup : p.mode.isShielded = true → path.Nodup) : path.Pairwise BenchLock.Below := by
  have htwice : ∀ lock : BenchLock, lock.Below lock → p.workload.lock p.mode = lock →
      path.Pairwise BenchLock.Below := by
    rintro lock hlock he
    rw [he] at hsub
    exact .sublist hsub (List.pairwise_replicate.mpr (.inr hlock))
  cases hmode : p.mode with
  | raw => exact htwice .reentrant trivial (by rw [hload, hmode]; rfl)
  | rawShared | shieldedShared => exact htwice .shared trivial (by rw [hload, hmode]; rfl)
  | shieldedStrict | shieldedReentrant =>
    exact pairwise_of_nodup hsub (hnodup (by rw [hmode]; rfl))

/-- The locks that an operation really enters lie one above the other. -/
theorem pairwise_ascent (hroute : p.IsRoute locks) (address : BenchLock → LockId)
    (capacity : Option Nat) (m : Ledger) :
    ((p.entry address capacity).ascent m locks).1.Pairwise BenchLock.Below := by
  have hsub := (p.entry address capacity).ascent_sublist locks m
  rw [IsRoute] at hroute
  split at hroute
  · subst hroute
    exact .sublist hsub (List.pairwise_singleton ..)
  · rename_i depth hload
    subst hroute
    refine pairwise_nested hload hsub fun hshielded => ?_
    rw [entry, if_pos hshielded]
    exact (Entry.shielded_ascent _ m).2
  · obtain ⟨start, -, hstair⟩ := hroute
    exact .sublist hsub hstair.pairwise

theorem Works.orderly {count : Nat} {steps : List RealStep} {fault : Option Fault}
    (h : p.Works (p.entry address capacity) m count steps fault) : Orderly [] steps := by
  have hround : ∀ {locks path fault left}, p.IsRoute locks →
      (p.entry address capacity).ascent m locks = (path, fault) → Orderly [] left →
      Orderly [] (round path ++ left) := by
    intro locks path fault left hroute he hleft
    have hpath := pairwise_ascent hroute address capacity m
    rw [he] at hpath
    exact orderly_round hpath (fun _ h => absurd h List.not_mem_nil) hleft
  induction h with
  | rest => exact .done
  | on hroute he _ ih => exact hround hroute he ih
  | refused hroute he =>
    have h := hround hroute he .done
    rwa [List.append_nil] at h

end Plan

theorem Shift.Lawful.orderly {shift : Shift} {p : Plan} {address : BenchLock → LockId}
    {capacity : Option Nat} (h : shift.Lawful p (p.entry address capacity)) :
    Orderly [] shift.warmup.steps ∧ Orderly [] shift.timed.steps := by
  cases h with
  | worked hwarmup htimed => exact ⟨hwarmup.works.orderly, htimed.works.orderly⟩
  | refused hwarmup htimed => exact ⟨hwarmup.works.orderly, htimed ▸ .done⟩

end LockElision
