import LockElision.Program.Launch
import LockElision.Proofs.Bench.Traceless

/-!
# How many nodes the operations of a run make

A worker with a pooled directory has, at the top of an operation, one node in use for each different
lock of its route. Those that the pool cannot give are made, and thrown away on the way back, so
every operation finds the pool as the first one did: it makes as many nodes as the fan-out of the
workload exceeds the pool, and with a pool as large as the fan-out none is ever made.
-/

namespace LockElision

namespace Entry

variable {address : BenchLock → LockId} {locks path : List BenchLock}

theorem Once.length_eq (h : Once address ∅ locks path) : path.length = locks.toFinset.card := by
  have hone : ∀ lock ∈ locks, path.count lock = 1 := fun lock hlock =>
    h.once lock hlock Finmap.notMem_empty
  have hnodup : path.Nodup := by
    refine List.nodup_iff_count_le_one.mpr fun lock => ?_
    by_cases hlock : lock ∈ locks
    · exact Nat.le_of_eq (hone lock hlock)
    · rw [List.count_eq_zero_of_not_mem fun hmem => hlock (h.sublist.subset hmem)]
      exact Nat.zero_le 1
  have hsame : path.toFinset = locks.toFinset := by
    ext lock
    rw [List.mem_toFinset, List.mem_toFinset]
    refine ⟨fun hmem => h.sublist.subset hmem, fun hmem => ?_⟩
    exact List.count_pos_iff.mp (by rw [hone lock hmem]; exact Nat.one_pos)
  rw [← hsame, List.toFinset_card_of_nodup hnodup]

end Entry

namespace Plan

open PooledDirectory

variable {p : Plan} {address : BenchLock → LockId} {route path : List BenchLock}

theorem IsRoute.card (h : validateWorkload p.mode p.workload = .ok ())
    (hids : Set.InjOn address {lock | p.HasLock lock}) (hroute : p.IsRoute route) :
    route.toFinset.card = p.workload.fanout.toNat := by
  unfold IsRoute at hroute
  split at hroute
  · rename_i hload
    subst hroute
    rw [hload]
    rfl
  · rename_i depth hload
    subst hroute
    rw [hload] at h ⊢
    have hdepth : depth.toNat ≠ 0 := fun he => (validateWorkload_nested h).1 (UInt64.toNat.inj he)
    rw [List.toFinset_replicate_of_ne_zero hdepth]
    rfl
  · rename_i levels locksPerLevel depth hload
    obtain ⟨start, hstart, hstair⟩ := hroute
    obtain ⟨hfresh, hlength, -⟩ := fresh_stair hids hload hstart hstair
    rw [List.toFinset_card_of_nodup hfresh.distinct.of_map, hlength, hload]
    rfl

section Pooled

variable (hp : p.validate = .ok ()) (hshielded : p.mode.isShielded = true)
  (hpooled : p.resolvedStrategy = .pooled) (hids : Set.InjOn address {lock | p.HasLock lock})
include hp hshielded hpooled hids

theorem ascent_pooled (hroute : p.IsRoute route) : ∃ path,
    (p.entry address none).ascent ∅ route = (path, none) ∧
      path.length = p.workload.fanout.toNat := by
  obtain ⟨-, -, hload⟩ := validate_ok hp
  have hno : ¬ p.Overflows := fun ho => by
    have hbounded := ho.bounded
    rw [hpooled] at hbounded
    cases hbounded
  have hcapacity : p.capacity = none := by rw [capacity, hpooled]
  have hnone := (ascent_of_route hload hids hroute).1 hno
  rw [hcapacity] at hnone
  obtain ⟨path, fault, he⟩ : ∃ path fault, (p.entry address none).ascent ∅ route = (path, fault) :=
    ⟨_, _, rfl⟩
  obtain rfl : fault = none := by rwa [he] at hnone
  have henters := (ascent_enters hids hroute he).1 rfl
  rw [Enters, if_pos hshielded] at henters
  exact ⟨path, he, henters.length_eq.trans (hroute.card hload hids)⟩

variable (choices : Choices) {hash : LockId → UInt64} {poolSize buckets : Nat}

/-- **An operation** makes the nodes that the pool lacks, however many were made before. -/
theorem operation_made {w : Worker PooledDirectory} {before : Nat}
    (hw : w.directory = (create hash poolSize buckets).spent before) :
    ∃ w' steps, p.operation address choices w = .ok () w' ∧
      w.Back w' steps (p.workload.fanout.toNat - poolSize) := by
  have hhas : w.Has none ∅ := by
    refine ⟨?_, rfl, ?_⟩
    · rw [hw]
      exact ⟨sound_spent (sound_create ..).1 before, spent_stocked (stocked_create ..) before⟩
    · rw [hw]
      exact ledger_create hash poolSize buckets
  obtain ⟨route, hroute, w', hrun, hback⟩ := operation_law address choices (runnable hp) hhas
  obtain ⟨path, he, hlength⟩ := ascent_pooled hp hshielded hpooled hids hroute
  rw [he] at hrun hback
  refine ⟨w', round path, hrun, ?_⟩
  have hfree : w.directory.free.length = poolSize := by
    rw [hw]
    exact List.length_replicate
  have htoll : p.toll w.directory path.length = p.workload.fanout.toNat - poolSize := by
    rw [toll, if_pos hshielded, hlength, ← hfree]
    rfl
  rw [← htoll]
  exact hback

theorem times_made : ∀ (count : Nat) {w : Worker PooledDirectory} {before : Nat},
    w.directory = (create hash poolSize buckets).spent before →
    ∃ w' steps, Operation.times (p.operation address choices) count w = .ok () w' ∧
      w.Back w' steps (count * (p.workload.fanout.toNat - poolSize)) := by
  intro count
  induction count with
  | zero =>
    intro w before hw
    refine ⟨w, [], rfl, ?_⟩
    rw [Nat.zero_mul]
    exact .refl w
  | succ count ih =>
    intro w before hw
    obtain ⟨w₁, steps₁, hop, hback₁⟩ :=
      operation_made hp hshielded hpooled hids choices hw
    have hw₁ : w₁.directory = (create hash poolSize buckets).spent
        (before + (p.workload.fanout.toNat - poolSize)) := by
      rw [hback₁.directory, hw]
      exact ReversibleDirectory.spent_spent ..
    obtain ⟨w₂, steps₂, htimes, hback₂⟩ := ih hw₁
    refine ⟨w₂, steps₁ ++ steps₂, ?_, ?_⟩
    · rw [Operation.times, hop]
      exact htimes
    · rw [Nat.succ_mul, Nat.add_comm]
      exact hback₁.trans hback₂

end Pooled

section Shift

variable {site : Site} (hp : p.validate = .ok ()) (hshielded : p.mode.isShielded = true)
  (hpooled : p.resolvedStrategy = .pooled) (hids : Set.InjOn site.address {lock | p.HasLock lock})
include hp hshielded hpooled hids

theorem shift_notices (hfits : p.workload.fanout.toNat ≤ site.sizing.poolSize.toNat)
    (worker : UInt64) : (p.shift site worker).notices = [] := by
  have hon : ∀ {w : Worker PooledDirectory} (count : Nat) {before : Nat},
      w.directory = (site.sizing.directory site.hash).spent before → w.notices = [] →
      ∃ w', Operation.times (p.operation site.address (site.choices worker)) count w = .ok () w' ∧
        w'.directory = (site.sizing.directory site.hash).spent before ∧ w'.notices = [] := by
    intro w count before hw hnotices
    obtain ⟨w', steps, hrun, hback⟩ :=
      times_made hp hshielded hpooled hids (site.choices worker) count hw
    rw [Nat.sub_eq_zero_of_le hfits, Nat.mul_zero] at hback
    refine ⟨w', hrun, hback.unchanged.trans hw, List.length_eq_zero_iff.mp ?_⟩
    rw [hback.notices, hnotices]
    rfl
  obtain ⟨w, hwarmup, hw, hnotices⟩ := hon (w := Worker.start (site.sizing.directory site.hash))
    p.warmup.toNat (show _ = (site.sizing.directory site.hash).spent 0 from rfl) rfl
  obtain ⟨w', htimed, -, hnotices'⟩ := hon (w := { w with steps := [], notices := [] })
    (p.share worker).toNat hw rfl
  have hshift : p.shift site worker = Shift.on (site.sizing.directory site.hash)
      (p.operation site.address (site.choices worker)) p.warmup (p.share worker) := by
    rw [shift, hpooled]
  rw [hshift, Shift.on, hwarmup]
  simp only [htimed, Shift.notices, Stretch.ofWorker, hnotices, hnotices']
  rfl

end Shift

theorem fanout_le_sizingFor {base : PoolSizing}
    (h : p.workload.fanout ≤ base.poolSize ∨ ∃ levels locksPerLevel depth,
      p.workload = .hierarchical levels locksPerLevel depth) :
    p.workload.fanout.toNat ≤ (Launch.sizingFor base p.workload).poolSize.toNat := by
  rcases h with h | ⟨levels, locksPerLevel, depth, hload⟩
  · refine Nat.le_trans (UInt64.le_iff_toNat_le.mp h) ?_
    unfold Launch.sizingFor
    split
    · rw [UInt64.toNat_max]
      exact Nat.le_max_left ..
    · exact Nat.le_refl _
  · rw [hload]
    show depth.toNat ≤ (max base.poolSize depth).toNat
    rw [UInt64.toNat_max]
    exact Nat.le_max_right ..

/-- **Nodes made by operations.** With a pool of any size, `count` operations make the nodes that
the pool lacks for each of them, announce them, and throw them away. The sizing that is installed
raises the pool to the depth of a walk, and then neither the warm-up nor the timed operations of any
worker make a node. For one lock, nested or not, it keeps the pool that was configured: that is
enough unless it is empty, which costs a node an operation. -/
theorem operations_make (hp : p.validate = .ok ()) (hshielded : p.mode.isShielded = true)
    (hpooled : p.resolvedStrategy = .pooled) {site : Site}
    (hids : Set.InjOn site.address {lock | p.HasLock lock}) :
    (∀ hash poolSize buckets choices count,
      let made := count * (p.workload.fanout.toNat - poolSize)
      ∃ w, Operation.times (p.operation site.address choices) count
          (Worker.start (create hash poolSize buckets)) = .ok () w ∧
        w.directory.usage = ⟨0, 0, 0, poolSize, poolSize, made, made⟩ ∧
        w.notices.length = made) ∧
    ∀ base, site.sizing = Launch.sizingFor base p.workload →
      (p.workload.fanout ≤ base.poolSize ∨ ∃ levels locksPerLevel depth,
        p.workload = .hierarchical levels locksPerLevel depth) →
      ∀ worker, (p.shift site worker).notices = [] := by
  have hstart : ∀ hash poolSize buckets,
      (Worker.start (create hash poolSize buckets)).directory =
        (create hash poolSize buckets).spent 0 := fun _ _ _ => rfl
  constructor
  · intro hash poolSize buckets choices count made
    obtain ⟨w, steps, hrun, hback⟩ :=
      times_made hp hshielded hpooled hids choices count (hstart hash poolSize buckets)
    refine ⟨w, hrun, ?_, ?_⟩
    · rw [hback.directory]
      show (⟨0, 0, 0, poolSize, poolSize, 0 + made, 0 + made⟩ : Usage) = _
      rw [Nat.zero_add]
    · rw [hback.notices]
      exact Nat.zero_add made
  · intro base hsizing hfits worker
    have hroom := fanout_le_sizingFor hfits
    rw [← hsizing] at hroom
    exact shift_notices hp hshielded hpooled hids hroom worker

/-- Three walks of three levels each, with two nodes in the pool. -/
theorem operations_make_short :
    let p : Plan := ⟨1, 3, 0, 0, .shieldedStrict, .hierarchical 4 1 3, .pooled, false, 0⟩
    let site := p.site (fun _ => 0) (Launch.sizingFor .standard p.workload) 1
    (∃ w, Operation.times (p.operation site.address fun _ _ => 0) 3
        (Worker.start (create (fun _ => 0) 2 4)) = .ok () w ∧
      w.directory.usage = ⟨0, 0, 0, 2, 2, 3, 3⟩ ∧ w.notices.length = 3) ∧
    (p.shift site 0).notices = [] := by
  intro p site
  have hids : Set.InjOn site.address {lock | p.HasLock lock} := site_injOn rfl (by decide) _ _ _
  obtain ⟨hmade, hnone⟩ := operations_make (p := p) rfl rfl rfl hids
  exact ⟨hmade (fun _ => 0) 2 4 (fun _ _ => 0) 3, hnone .standard rfl (.inl (by decide)) 0⟩

/-- With an empty pool configured, the only operation of a flat plan makes a node. -/
theorem shift_notices_of_empty_pool :
    let p : Plan := ⟨1, 1, 0, 0, .shieldedReentrant, .flat, .pooled, false, 0⟩
    let base : PoolSizing := ⟨0, 16⟩
    let site := p.site (fun _ => 0) (Launch.sizingFor base p.workload) 1
    p.validate = .ok () ∧ p.mode.isShielded = true ∧ p.resolvedStrategy = .pooled ∧
      Set.InjOn site.address {lock | p.HasLock lock} ∧ base.validate = .ok () ∧
      site.sizing = Launch.sizingFor base p.workload ∧ (p.shift site 0).notices = [⟨0, 0⟩] := by
  intro p base site
  have hids : Set.InjOn site.address {lock | p.HasLock lock} := by
    intro a ha b hb he
    cases a with
    | level => exact ha.elim
    | _ =>
      cases b with
      | level => exact hb.elim
      | _ => first | rfl | exact absurd he (by decide)
  exact ⟨rfl, rfl, rfl, hids, rfl, rfl, by decide +kernel⟩

end Plan

end LockElision
