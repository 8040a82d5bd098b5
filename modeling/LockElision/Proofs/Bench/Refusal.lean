import LockElision.Proofs.Bench.Gate
import LockElision.Proofs.Bench.Order

/-!
# Which plans are refused a lock

From an empty directory an operation enters all the locks of its route, unless the directory is a
slot table and the route has more different locks than that has slots. Only a climb through more
than four levels has, so a plan can tell beforehand whether its workers will be refused a lock.
-/

namespace LockElision

namespace Ledger

variable {m : Ledger} {id : LockId}

theorem keys_insert (m : Ledger) (id : LockId) (n : Nat) :
    (m.insert id n).keys = insert id m.keys := by
  ext other
  rw [Finmap.mem_keys, Finset.mem_insert, Finmap.mem_insert, Finmap.mem_keys]

theorem size_insert (n : Nat) (h : m.lookup id = none) : size (m.insert id n) = m.size + 1 := by
  have hnew : id ∉ m.keys := by rwa [Finmap.mem_keys, ← Finmap.lookup_eq_none]
  rw [size, keys_insert, Finset.card_insert_of_notMem hnew]
  rfl

theorem size_empty : size ∅ = 0 := by
  rw [size, Finmap.keys_empty, Finset.card_empty]

end Ledger

namespace Entry

variable {capacity : Option Nat} {address : BenchLock → LockId} {mode : Reentrancy} {m : Ledger}
  {lock : BenchLock} {locks : List BenchLock}

theorem ascent_raw (m : Ledger) (locks : List BenchLock) : raw.ascent m locks = (locks, none) := by
  induction locks with
  | nil => rfl
  | cons lock locks ih => rw [ascent_entered rfl, ih]; rfl

/-- Whether so many locks more may be entered. -/
def HasRoom (capacity : Option Nat) (m : Ledger) (more : Nat) : Prop :=
  ∀ n, capacity = some n → m.size + more ≤ n

theorem shielded_fresh (h : m.lookup (address lock) = none) (capacity : Option Nat)
    (mode : Reentrancy) :
    shielded capacity address mode m lock = if m.hasRoom capacity then
      .ok (true, m.insert (address lock) 1)
    else .error (.capacityExceeded (address lock) (capacity.getD 0)) := by
  rw [shielded, Ledger.enter_of_absent h]
  by_cases hroom : m.hasRoom capacity = true
  · rw [if_pos hroom, if_pos hroom]; rfl
  · rw [if_neg hroom, if_neg hroom]; rfl

theorem hasRoom_iff : m.hasRoom capacity = true ↔ HasRoom capacity m 1 := by
  cases capacity with
  | none => exact ⟨fun _ _ h => (nomatch h), fun _ => rfl⟩
  | some n =>
    rw [Ledger.hasRoom, decide_eq_true_iff]
    exact ⟨fun h n' he => by cases he; exact h, fun h => h n rfl⟩

/-- Locks of different identities, none of which the worker has. -/
structure Fresh (address : BenchLock → LockId) (m : Ledger) (locks : List BenchLock) : Prop where
  distinct : (locks.map address).Nodup
  absent : ∀ lock ∈ locks, m.lookup (address lock) = none

theorem Fresh.tail (h : Fresh address m (lock :: locks)) (n : Nat) :
    Fresh address (m.insert (address lock) n) locks := by
  obtain ⟨hnot, hnodup⟩ := List.nodup_cons.mp h.distinct
  refine ⟨hnodup, fun other hother => ?_⟩
  have hne : address other ≠ address lock := fun he =>
    hnot (he ▸ List.mem_map_of_mem hother)
  rw [Finmap.lookup_insert_of_ne _ hne]
  exact h.absent other (List.mem_cons_of_mem _ hother)

theorem ascent_fresh : ∀ {m : Ledger}, Fresh address m locks → HasRoom capacity m locks.length →
    (shielded capacity address mode).ascent m locks = (locks, none) := by
  induction locks with
  | nil => exact fun _ _ => rfl
  | cons lock locks ih =>
    intro m hfresh hroom
    have habsent := hfresh.absent lock List.mem_cons_self
    have he : shielded capacity address mode m lock = .ok (true, m.insert (address lock) 1) := by
      rw [shielded_fresh habsent, if_pos]
      refine hasRoom_iff.mpr fun n hn => ?_
      have := hroom n hn
      rw [List.length_cons] at this
      omega
    rw [ascent_entered he, ih (hfresh.tail 1) fun n hn => ?_]
    · rfl
    · have := hroom n hn
      rw [Ledger.size_insert 1 habsent]
      rw [List.length_cons] at this
      omega

theorem ascent_crowded {n : Nat} : ∀ {m : Ledger}, Fresh address m locks →
    n < m.size + locks.length → m.size ≤ n → ∃ path, ∃ lock ∈ locks,
      (shielded (some n) address mode).ascent m locks =
        (path, some (.capacityExceeded (address lock) n)) := by
  induction locks with
  | nil => intro m _ hcrowded hfits; rw [List.length_nil] at hcrowded; omega
  | cons lock locks ih =>
    intro m hfresh hcrowded hfits
    have habsent := hfresh.absent lock List.mem_cons_self
    have he := shielded_fresh habsent (some n) mode
    by_cases hroom : m.hasRoom (some n) = true
    · rw [if_pos hroom] at he
      have hlt := hasRoom_iff.mp hroom n rfl
      rw [List.length_cons] at hcrowded
      obtain ⟨path, other, hother, hascent⟩ := ih (hfresh.tail 1)
        (by rw [Ledger.size_insert 1 habsent]; omega) (by rw [Ledger.size_insert 1 habsent]; omega)
      exact ⟨_, other, List.mem_cons_of_mem _ hother, by rw [ascent_entered he, hascent]⟩
    · rw [if_neg hroom] at he
      exact ⟨[], lock, List.mem_cons_self, ascent_refused he⟩

theorem ascent_nested (k : Nat) : ∀ {m : Ledger} {n : Nat}, m.lookup (address lock) = some n →
    (shielded capacity address .reentrant).ascent m (List.replicate k lock) = ([], none) := by
  induction k with
  | zero => exact fun _ => rfl
  | succ k ih =>
    intro m n h
    have he : shielded capacity address .reentrant m lock =
        .ok (false, m.insert (address lock) (n + 1)) := by
      rw [shielded, Ledger.enter_reentrant h]; rfl
    rw [List.replicate_succ, ascent_entered he, ih (Finmap.lookup_insert m)]
    rfl

theorem ascent_replicate (k : Nat) (h : m.lookup (address lock) = none)
    (hroom : m.hasRoom capacity = true) :
    (shielded capacity address .reentrant).ascent m (List.replicate (k + 1) lock) =
      ([lock], none) := by
  have he : shielded capacity address .reentrant m lock =
      .ok (true, m.insert (address lock) 1) := by
    rw [shielded_fresh h, if_pos hroom]
  rw [List.replicate_succ, ascent_entered he, ascent_nested k (Finmap.lookup_insert m)]
  rfl

end Entry

theorem LockMode.exclusive {mode : LockMode} (hshared : mode.isShared = false)
    (hshielded : mode.isShielded = true) : mode = .shieldedStrict ∨ mode = .shieldedReentrant := by
  cases mode with
  | shieldedStrict => exact .inl rfl
  | shieldedReentrant => exact .inr rfl
  | raw => cases hshielded
  | rawShared | shieldedShared => cases hshared

namespace Plan

/-- The locks of a plan. -/
def HasLock (p : Plan) (lock : BenchLock) : Prop :=
  match lock, p.workload with
  | .level i j, .hierarchical levels locksPerLevel _ =>
    i < levels.toNat ∧ j < locksPerLevel.toNat
  | .level _ _, _ => False
  | _, _ => True

/-- The workers climb deeper than their slot tables have slots. -/
structure Overflows (p : Plan) : Prop where
  mode : p.mode = .shieldedStrict ∨ p.mode = .shieldedReentrant
  deep : ∃ levels locksPerLevel depth, p.workload = .hierarchical levels locksPerLevel depth ∧
    4 < depth
  bounded : p.resolvedStrategy = .bounded

section

variable {p : Plan} {address : BenchLock → LockId} {locks : List BenchLock}

theorem resolvedStrategy_cases (p : Plan) :
    (p.resolvedStrategy = .bounded ∧ p.capacity = some tableCapacity) ∨
      (p.resolvedStrategy = .pooled ∧ p.capacity = none) := by
  have hauto : p.resolvedStrategy ≠ .auto := by
    rw [resolvedStrategy]
    cases p.strategy with
    | auto => rw [Strategy.resolve]; split <;> nofun
    | bounded | pooled => nofun
  rw [capacity]
  cases hs : p.resolvedStrategy with
  | auto => exact absurd hs hauto
  | bounded => exact .inl ⟨rfl, rfl⟩
  | pooled => exact .inr ⟨rfl, rfl⟩

theorem not_overflows_of_auto (h : p.strategy = .auto) : ¬ p.Overflows := by
  rintro ⟨-, ⟨levels, locksPerLevel, depth, hload, hdeep⟩, hbounded⟩
  have hlt : tableCapacity < (Workload.hierarchical levels locksPerLevel depth).fanout.toNat :=
    UInt64.lt_iff_toNat_lt.mp hdeep
  rw [resolvedStrategy, h, hload, Strategy.resolve, if_pos hlt] at hbounded
  cases hbounded

theorem fresh_stair (hids : Set.InjOn address {lock | p.HasLock lock})
    {levels locksPerLevel depth : UInt64}
    (hload : p.workload = .hierarchical levels locksPerLevel depth) {start count : Nat}
    (hstart : start + count ≤ levels.toNat) (h : Stair locksPerLevel.toNat start count locks) :
    Entry.Fresh address ∅ locks ∧ locks.length = count ∧ ∀ lock ∈ locks, p.HasLock lock := by
  have hmem : locks.length = count ∧ ∀ lock ∈ locks, p.HasLock lock := by
    clear hids
    induction h with
    | nil => exact ⟨rfl, fun _ h => absurd h List.not_mem_nil⟩
    | @cons level count index rest hindex _ ih =>
      obtain ⟨hlength, hrest⟩ := ih (by omega)
      refine ⟨by rw [List.length_cons, hlength], fun lock hlock => ?_⟩
      rcases List.mem_cons.mp hlock with rfl | hlock
      · unfold HasLock
        rw [hload]
        exact ⟨by omega, hindex⟩
      · exact hrest lock hlock
  have hnodup : locks.Nodup := by
    refine List.Pairwise.imp_of_mem (fun {a b} ha _ hbelow he => ?_) h.pairwise
    obtain ⟨i, j, rfl, -⟩ := h.levels a ha
    subst he
    exact Nat.lt_irrefl i hbelow
  refine ⟨⟨hnodup.map_on fun a ha b hb he => hids (hmem.2 a ha) (hmem.2 b hb) he,
    fun _ _ => Finmap.lookup_empty _⟩, hmem⟩

theorem hasRoom_empty (p : Plan) : Ledger.hasRoom p.capacity ∅ = true := by
  refine Entry.hasRoom_iff.mpr fun n hn => ?_
  rw [Ledger.size_empty]
  rcases p.resolvedStrategy_cases with ⟨-, hc⟩ | ⟨-, hc⟩ <;> rw [hc] at hn
  · obtain rfl := Option.some.inj hn
    decide
  · cases hn

theorem ascent_flat (lock : BenchLock) :
    ((p.entry address p.capacity).ascent ∅ [lock]).2 = none := by
  rw [entry]
  split
  · have hfresh : Entry.Fresh address ∅ [lock] :=
      ⟨List.nodup_singleton (address lock), fun _ _ => Finmap.lookup_empty _⟩
    rw [Entry.ascent_fresh hfresh (Entry.hasRoom_iff.mp p.hasRoom_empty)]
  · rw [Entry.ascent_raw]

/-- A strict worker never has a lock to enter over and over. -/
theorem ascent_nested {depth : UInt64} (h : validateWorkload p.mode (.nested depth) = .ok ())
    (lock : BenchLock) :
    ((p.entry address p.capacity).ascent ∅ (List.replicate depth.toNat lock)).2 = none := by
  obtain ⟨hdepth, hstrict⟩ := validateWorkload_nested h
  obtain ⟨more, hmore⟩ : ∃ more, depth.toNat = more + 1 :=
    Nat.exists_eq_succ_of_ne_zero fun he => hdepth (UInt64.toNat.inj he)
  rw [hmore]
  rcases Nat.eq_zero_or_pos more with rfl | hpos
  · exact ascent_flat lock
  · have hmode : p.mode ≠ .shieldedStrict := fun hm =>
      hstrict ⟨UInt64.lt_iff_toNat_lt.mpr (by rw [hmore]; exact Nat.succ_lt_succ hpos), hm⟩
    have hreentrant : p.mode.reentrancy = .reentrant := by
      cases hm : p.mode with
      | shieldedStrict => exact absurd hm hmode
      | _ => rfl
    rw [entry, hreentrant]
    split
    · rw [Entry.ascent_replicate more (Finmap.lookup_empty _) p.hasRoom_empty]
    · rw [Entry.ascent_raw]

section Climb

variable {levels locksPerLevel depth : UInt64}
  (hload : p.workload = .hierarchical levels locksPerLevel depth)
include hload

theorem ascent_roomy (hshared : p.mode.isShared = false) (hno : ¬ p.Overflows)
    (hfresh : Entry.Fresh address ∅ locks) (hlength : locks.length = depth.toNat) :
    ((p.entry address p.capacity).ascent ∅ locks).2 = none := by
  rw [entry]
  split
  · rename_i hshielded
    have hroom : Entry.HasRoom p.capacity ∅ locks.length := by
      intro n hn
      rw [Ledger.size_empty, Nat.zero_add, hlength]
      rcases p.resolvedStrategy_cases with ⟨hs, hc⟩ | ⟨-, hc⟩ <;> rw [hc] at hn
      · obtain rfl := Option.some.inj hn
        by_contra hdeep
        have hdeep : 4 < depth := UInt64.lt_iff_toNat_lt.mpr (Nat.lt_of_not_le hdeep)
        exact hno ⟨LockMode.exclusive hshared hshielded, ⟨_, _, _, hload, hdeep⟩, hs⟩
      · cases hn
    rw [Entry.ascent_fresh hfresh hroom]
  · rw [Entry.ascent_raw]

theorem ascent_overflowing (ho : p.Overflows) (hfresh : Entry.Fresh address ∅ locks)
    (hlength : locks.length = depth.toNat) : ∃ lock ∈ locks,
    ((p.entry address p.capacity).ascent ∅ locks).2 =
      some (.capacityExceeded (address lock) tableCapacity) := by
  obtain ⟨levels', locksPerLevel', depth', hload', hdeep⟩ := ho.deep
  obtain ⟨rfl, rfl, rfl⟩ := Workload.hierarchical.inj (hload.symm.trans hload')
  have hdeep : tableCapacity < depth.toNat := UInt64.lt_iff_toNat_lt.mp hdeep
  have hshielded : p.mode.isShielded = true := by rcases ho.mode with hm | hm <;> rw [hm] <;> rfl
  rcases p.resolvedStrategy_cases with ⟨-, hc⟩ | ⟨hs, -⟩
  · have hcrowded : tableCapacity < Ledger.size ∅ + locks.length := by
      rw [Ledger.size_empty, hlength, Nat.zero_add]; exact hdeep
    obtain ⟨path, lock, hlock, hascent⟩ :=
      Entry.ascent_crowded hfresh hcrowded (by rw [Ledger.size_empty]; exact Nat.zero_le _)
    rw [entry, if_pos hshielded, hc]
    exact ⟨lock, hlock, by rw [hascent]⟩
  · rw [ho.bounded] at hs
    cases hs

end Climb

/-- **A route** is refused exactly in the plans that overflow. -/
theorem ascent_of_route (h : validateWorkload p.mode p.workload = .ok ())
    (hids : Set.InjOn address {lock | p.HasLock lock}) (hroute : p.IsRoute locks) :
    (¬ p.Overflows → ((p.entry address p.capacity).ascent ∅ locks).2 = none) ∧
    (p.Overflows → ∃ lock, p.HasLock lock ∧ ((p.entry address p.capacity).ascent ∅ locks).2 =
      some (.capacityExceeded (address lock) tableCapacity)) := by
  have hshallow : (∀ levels locksPerLevel depth,
      p.workload ≠ .hierarchical levels locksPerLevel depth) → ¬ p.Overflows := fun hne ho => by
    obtain ⟨levels, locksPerLevel, depth, hload, -⟩ := ho.deep
    exact hne levels locksPerLevel depth hload
  unfold IsRoute at hroute
  split at hroute
  · rename_i hload
    subst hroute
    exact ⟨fun _ => ascent_flat _, fun ho => absurd ho (hshallow (by rw [hload]; nofun))⟩
  · rename_i depth hload
    subst hroute
    rw [hload] at h
    exact ⟨fun _ => ascent_nested h _, fun ho => absurd ho (hshallow (by rw [hload]; nofun))⟩
  · rename_i levels locksPerLevel depth hload
    obtain ⟨start, hstart, hstair⟩ := hroute
    obtain ⟨hfresh, hlength, hmem⟩ := fresh_stair hids hload hstart hstair
    rw [hload] at h
    obtain ⟨-, -, -, hshared⟩ := validateWorkload_hierarchical h
    refine ⟨fun hno => ascent_roomy hload hshared hno hfresh hlength, fun ho => ?_⟩
    obtain ⟨lock, hlock, hascent⟩ := ascent_overflowing hload ho hfresh hlength
    exact ⟨lock, hmem lock hlock, hascent⟩

/-! ## What a worker reports -/

section Report

variable {site : Site} {count : Nat} {steps : List RealStep} {fault : Option Fault}
  (h : validateWorkload p.mode p.workload = .ok ())
  (hids : Set.InjOn site.address {lock | p.HasLock lock})
include h hids

theorem Works.not_refused (hno : ¬ p.Overflows)
    (hw : p.Works (p.entry site.address p.capacity) ∅ count steps fault) : fault = none := by
  induction hw with
  | rest => rfl
  | on _ _ _ ih => exact ih
  | refused hroute he =>
    have hnone := (ascent_of_route h hids hroute).1 hno
    rw [he] at hnone
    cases hnone

theorem Works.refused_of_overflows (ho : p.Overflows) (hcount : 0 < count)
    (hw : p.Works (p.entry site.address p.capacity) ∅ count steps fault) :
    ∃ lock, p.HasLock lock ∧
      fault = some (.capacityExceeded (site.address lock) tableCapacity) := by
  cases hw with
  | rest => cases hcount
  | on hroute he =>
    obtain ⟨lock, -, hsome⟩ := (ascent_of_route h hids hroute).2 ho
    rw [he] at hsome
    cases hsome
  | refused hroute he =>
    obtain ⟨lock, hlock, hsome⟩ := (ascent_of_route h hids hroute).2 ho
    rw [he] at hsome
    exact ⟨lock, hlock, hsome⟩

end Report

theorem Works.of_zero {entry : Entry} {m : Ledger} {steps : List RealStep} {fault : Option Fault}
    (h : p.Works entry m 0 steps fault) : fault = none := by
  cases h
  rfl

theorem share_shift (p : Plan) (site : Site) (worker : UInt64) :
    (p.shift site worker).share = p.share worker := by
  have hon : ∀ {D : Type} [Directory D] (d : D) (operation : WorkM D Unit) (warmup share : UInt64),
      (Shift.on d operation warmup share).share = share := by
    intro D _ d operation warmup share
    unfold Shift.on
    split <;> rfl
  unfold shift
  split <;> exact hon ..

theorem broke_of_lawful {stretch : Stretch} {entry : Entry} {count : Nat} {fault : Option Fault}
    (h : stretch.Lawful p entry count fault) : stretch.broke = false := by
  rw [Stretch.broke, h.result]
  cases fault <;> rfl

theorem shift_unbroken (hp : p.validate = .ok ()) (site : Site) (worker : UInt64) :
    (p.shift site worker).warmup.broke = false ∧ (p.shift site worker).timed.holdings = [] := by
  cases p.shift_lawful (runnable hp) site worker with
  | worked hwarmup htimed => exact ⟨broke_of_lawful hwarmup, htimed.holdings⟩
  | refused hwarmup htimed =>
    exact ⟨broke_of_lawful hwarmup, by rw [htimed]; exact hwarmup.holdings⟩

section Result

variable {site : Site} (hp : p.validate = .ok ())
  (hids : Set.InjOn site.address {lock | p.HasLock lock})
include hp hids

theorem result_of_not_overflows (hno : ¬ p.Overflows) (worker : UInt64) :
    (p.shift site worker).result true = .ok (p.share worker) := by
  obtain ⟨-, -, hload⟩ := validate_ok hp
  cases p.shift_lawful (runnable hp) site worker with
  | worked hwarmup htimed =>
    rw [Works.not_refused hload hids hno htimed.works] at htimed
    rw [Shift.result, hwarmup.result, htimed.result, share_shift]
    rfl
  | refused hwarmup => exact absurd (Works.not_refused hload hids hno hwarmup.works) nofun

/-- A worker is refused a lock sooner or later, unless it has nothing to do. -/
theorem result_of_overflows (ho : p.Overflows) (worker : UInt64) :
    (∃ lock, p.HasLock lock ∧ (p.shift site worker).result true =
      .error (.refused (.capacityExceeded (site.address lock) tableCapacity))) ∨
    ((p.share worker).toNat = 0 ∧ (p.shift site worker).result true = .ok (p.share worker)) := by
  obtain ⟨-, -, hload⟩ := validate_ok hp
  cases p.shift_lawful (runnable hp) site worker with
  | @worked fault hwarmup htimed =>
    rw [share_shift] at htimed
    rcases Nat.eq_zero_or_pos (p.share worker).toNat with hzero | hpos
    · rw [hzero] at htimed
      have hnone := htimed.works.of_zero
      rw [Shift.result, hwarmup.result, htimed.result, hnone, share_shift]
      exact .inr ⟨hzero, rfl⟩
    · obtain ⟨lock, hlock, rfl⟩ := Works.refused_of_overflows hload hids ho hpos htimed.works
      rw [Shift.result, hwarmup.result, htimed.result]
      exact .inl ⟨lock, hlock, rfl⟩
  | refused hwarmup =>
    have hpos : 0 < p.warmup.toNat := by
      rcases Nat.eq_zero_or_pos p.warmup.toNat with hzero | hpos
      · rw [hzero] at hwarmup
        exact nomatch hwarmup.works.of_zero
      · exact hpos
    obtain ⟨lock, hlock, hfault⟩ := Works.refused_of_overflows hload hids ho hpos hwarmup.works
    rw [Shift.result, hwarmup.result, hfault]
    exact .inl ⟨lock, hlock, rfl⟩

end Result

end

end Plan

end LockElision
