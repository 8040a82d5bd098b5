import LockElision.Proofs.Bench.Outcome

/-!
# Operations leave no trace

Whatever a worker has before some operations in a row, it has afterwards, whether they succeed or
one of them is refused a lock: every lock is left as often as it was entered, and the directory is
the one they began with. `Entry.Once` says which locks an operation really enters behind a shield,
and `Entry.Refused` what it is refused, if it is; `Plan.Journeys` says the same of operations in a
row.
-/

namespace LockElision

namespace Ledger

variable {m : Ledger} {id : LockId}

theorem size_insert_of_mem (n : Nat) (h : id ∈ m) : size (m.insert id n) = m.size := by
  rw [size, keys_insert, Finset.insert_eq_of_mem (Finmap.mem_keys.mpr h)]
  rfl

end Ledger

namespace Entry

/-- The locks of `path` are those of `locks` that the ledger lacks, in their order, each once
however often it is to be entered. -/
structure Once (address : BenchLock → LockId) (m : Ledger) (locks path : List BenchLock) :
    Prop where
  sublist : path.Sublist locks
  once : ∀ lock ∈ locks, address lock ∉ m → path.count lock = 1
  new : ∀ lock ∈ path, address lock ∉ m

/-- How an operation ends on a ledger `m` when the locks of `path` were entered and those of the
list are still to come: there are none, or the first one would be one too many, or the worker has it
already and must not enter it again. -/
inductive Ends (capacity : Option Nat) (address : BenchLock → LockId) (mode : Reentrancy)
    (m : Ledger) (path : List BenchLock) : List BenchLock → Option Fault → Prop where
  | arrived : Ends capacity address mode m path [] none
  | full {n : Nat} {lock : BenchLock} {rest : List BenchLock} : capacity = some n →
      address lock ∉ m → lock ∉ path → n ≤ m.size + path.length →
      Ends capacity address mode m path (lock :: rest) (some (.capacityExceeded (address lock) n))
  | again {lock : BenchLock} {rest : List BenchLock} : mode = .strict →
      (address lock ∈ m ∨ lock ∈ path) →
      Ends capacity address mode m path (lock :: rest) (some (.unbalancedLock (address lock)))

variable {capacity : Option Nat} {address : BenchLock → LockId} {mode : Reentrancy} {m : Ledger}
  {lock other : BenchLock} {locks path : List BenchLock} {fault : Option Fault}
  {s : Set BenchLock} {n : Nat}

/-- The worker has a lock, by what it had before or by its path. -/
def Possesses (address : BenchLock → LockId) (m : Ledger) (path : List BenchLock)
    (lock : BenchLock) : Prop :=
  address lock ∈ m ∨ lock ∈ path

theorem Possesses.of_new (hids : Set.InjOn address s) (hlock : lock ∈ s) (hother : other ∈ s)
    (h : Possesses address (m.insert (address lock) 1) path other) :
    Possesses address m (lock :: path) other := by
  rcases h with h | h
  · rcases Finmap.mem_insert.mp h with he | h
    · exact .inr (hids hother hlock he ▸ List.mem_cons_self)
    · exact .inl h
  · exact .inr (List.mem_cons_of_mem lock h)

theorem Possesses.of_nested (hl : address lock ∈ m)
    (h : Possesses address (m.insert (address lock) n) path other) :
    Possesses address m path other := by
  rcases h with h | h
  · rcases Finmap.mem_insert.mp h with he | h
    · exact .inl (he ▸ hl)
    · exact .inl h
  · exact .inr h

theorem Ends.of_new (hids : Set.InjOn address s) (hlock : lock ∈ s) (hl : address lock ∉ m)
    (hs : ∀ other ∈ locks, other ∈ s)
    (h : Ends capacity address mode (m.insert (address lock) 1) path locks fault) :
    Ends capacity address mode m (lock :: path) locks fault := by
  cases h with
  | arrived => exact .arrived
  | full hc hnew hpath hfull =>
    rw [Finmap.mem_insert, not_or] at hnew
    rw [Ledger.size_insert 1 (Finmap.lookup_eq_none.mpr hl)] at hfull
    refine .full hc hnew.2 (fun hmem => ?_) (by rw [List.length_cons]; omega)
    rcases List.mem_cons.mp hmem with rfl | hmem
    · exact hnew.1 rfl
    · exact hpath hmem
  | again hstrict hhas =>
    exact .again hstrict (Possesses.of_new hids hlock (hs _ List.mem_cons_self) hhas)

theorem Ends.of_nested (hl : address lock ∈ m)
    (h : Ends capacity address mode (m.insert (address lock) n) path locks fault) :
    Ends capacity address mode m path locks fault := by
  cases h with
  | arrived => exact .arrived
  | full hc hnew hpath hfull =>
    rw [Finmap.mem_insert, not_or] at hnew
    rw [Ledger.size_insert_of_mem n hl] at hfull
    exact .full hc hnew.2 hpath hfull
  | again hstrict hhas => exact .again hstrict (Possesses.of_nested hl hhas)

theorem Ends.of_error {refusal : Fault}
    (h : shielded capacity address mode m lock = .error refusal) (rest : List BenchLock) :
    Ends capacity address mode m [] (lock :: rest) (some refusal) := by
  cases hl : m.lookup (address lock) with
  | none =>
    rw [shielded_fresh hl] at h
    split at h
    · cases h
    · rename_i hroom
      cases h
      cases hc : capacity with
      | none => exact absurd (by rw [hc]; rfl) hroom
      | some n =>
        have hfull : ¬ m.size < n := by simpa [hc, Ledger.hasRoom] using hroom
        exact .full rfl (Finmap.lookup_eq_none.mp hl) List.not_mem_nil (Nat.le_of_not_lt hfull)
  | some k =>
    cases mode with
    | strict =>
      rw [shielded, Ledger.enter_strict hl] at h
      cases h
      exact .again rfl (.inl (Finmap.mem_of_lookup_eq_some hl))
    | reentrant => rw [shielded, Ledger.enter_reentrant hl] at h; cases h

/-- **Behind a shield** a worker goes up to the first lock that it is refused. -/
theorem shielded_ascent_end (hids : Set.InjOn address s) : ∀ {m : Ledger} {path : List BenchLock}
    {fault : Option Fault}, (∀ lock ∈ locks, lock ∈ s) →
    (shielded capacity address mode).ascent m locks = (path, fault) →
    ∃ reached rest, locks = reached ++ rest ∧ path.Sublist reached ∧
      (∀ lock ∈ reached, Possesses address m path lock) ∧
      Ends capacity address mode m path rest fault := by
  induction locks with
  | nil =>
    intro m path fault _ h
    obtain ⟨rfl, rfl⟩ := Prod.mk.inj h
    exact ⟨[], [], rfl, .slnil, fun _ h => absurd h List.not_mem_nil, .arrived⟩
  | cons lock locks ih =>
    intro m path fault hs h
    have hlock := hs lock List.mem_cons_self
    cases he : shielded capacity address mode m lock with
    | error refusal =>
      rw [ascent_refused he] at h
      obtain ⟨rfl, rfl⟩ := Prod.mk.inj h
      exact ⟨[], lock :: locks, rfl, .slnil, fun _ h => absurd h List.not_mem_nil, .of_error he _⟩
    | ok entered =>
      obtain ⟨real, m'⟩ := entered
      rw [ascent_entered he] at h
      obtain ⟨rfl, rfl⟩ := Prod.mk.inj h
      obtain ⟨reached, rest, rfl, hsub, hhas, hends⟩ :=
        ih (m := m') (fun other hother => hs other (List.mem_cons_of_mem lock hother)) rfl
      refine ⟨lock :: reached, rest, rfl, ?_⟩
      have hin : ∀ other ∈ reached ++ rest, other ∈ s := fun other hother =>
        hs other (List.mem_cons_of_mem lock hother)
      rcases shielded_ok he with ⟨rfl, hl, rfl, -⟩ | ⟨rfl, -, n, hl, rfl, -⟩
      · refine ⟨hsub.cons_cons lock, fun other hother => ?_, ?_⟩
        · rcases List.mem_cons.mp hother with rfl | hother
          · exact .inr List.mem_cons_self
          · exact (hhas other hother).of_new hids hlock (hin other (List.mem_append_left _ hother))
        · exact hends.of_new hids hlock (Finmap.lookup_eq_none.mp hl) fun other hother =>
            hin other (List.mem_append_right _ hother)
      · have hl : address lock ∈ m := Finmap.mem_of_lookup_eq_some hl
        refine ⟨hsub.cons lock, fun other hother => ?_, hends.of_nested hl⟩
        rcases List.mem_cons.mp hother with rfl | hother
        · exact .inl hl
        · exact (hhas other hother).of_nested hl

theorem shielded_ascent_once (hids : Set.InjOn address s) (hs : ∀ lock ∈ locks, lock ∈ s)
    {fault : Option Fault} (h : (shielded capacity address mode).ascent m locks = (path, fault)) :
    ∃ reached rest, locks = reached ++ rest ∧ Once address m reached path ∧
      Ends capacity address mode m path rest fault := by
  obtain ⟨reached, rest, hlocks, hsub, hhas, hends⟩ := shielded_ascent_end hids hs h
  have hpath : ((shielded capacity address mode).ascent m locks).1 = path := congrArg Prod.fst h
  obtain ⟨hnew, hnodup⟩ := hpath ▸ shielded_ascent locks m
  refine ⟨reached, rest, hlocks, ⟨hsub, fun lock hlock hl => ?_, fun lock hlock => ?_⟩, hends⟩
  · exact List.count_eq_one_of_mem hnodup ((hhas lock hlock).resolve_left hl)
  · exact Finmap.lookup_eq_none.mp (hnew lock hlock)

end Entry

/-! ## Operations in a row -/

theorem count_round (path : List BenchLock) (lock : BenchLock) :
    (round path).count (.enter lock) = path.count lock ∧
      (round path).count (.leave lock) = path.count lock := by
  have henter : Function.Injective RealStep.enter := fun _ _ h => RealStep.enter.inj h
  have hleave : Function.Injective RealStep.leave := fun _ _ h => RealStep.leave.inj h
  have hnot : (path.map RealStep.enter).count (.leave lock) = 0 := by simp [List.count_eq_zero]
  have hnot' : (path.reverse.map RealStep.leave).count (.enter lock) = 0 := by
    simp [List.count_eq_zero]
  constructor
  · rw [round, List.count_append, List.count_map_of_injective _ _ henter, hnot', Nat.add_zero]
  · rw [round, List.count_append, List.count_map_of_injective _ _ hleave, hnot, Nat.zero_add,
      List.count_reverse]

theorem count_rounds (paths : List (List BenchLock)) (lock : BenchLock) :
    (paths.flatMap round).count (.enter lock) = (paths.flatMap round).count (.leave lock) := by
  induction paths with
  | nil => rfl
  | cons path paths ih =>
    obtain ⟨henter, hleave⟩ := count_round path lock
    rw [List.flatMap_cons, List.count_append, List.count_append, henter, hleave, ih]

theorem notMem_rounds {paths : List (List BenchLock)} {last : List BenchLock} {lock : BenchLock}
    (hpaths : ∀ path ∈ paths, lock ∉ path) (hlast : lock ∉ last) :
    RealStep.enter lock ∉ paths.flatMap round ++ round last ∧
      RealStep.leave lock ∉ paths.flatMap round ++ round last := by
  simpa [round, hlast] using hpaths

namespace Plan

/-- The checks let the plan through, or reject it for nothing but nesting in strict mode. -/
def Admitted (p : Plan) : Prop :=
  validateWorkload p.mode p.workload = .ok () ∨
    p.mode = .shieldedStrict ∧ ∃ depth, 1 < depth ∧ p.workload = .nested depth

/-- The locks that a completed operation really enters and leaves: behind a shield those that the
worker lacks, once each, otherwise all of its route. -/
def Enters (p : Plan) (address : BenchLock → LockId) (m : Ledger) (route path : List BenchLock) :
    Prop :=
  if p.mode.isShielded then Entry.Once address m route path else path = route

/-- What `count` operations of a plan, one after another until one is refused, come to for a worker
that goes on from `w` to `w'`. The completed ones really entered the locks of `paths`, the refused
one, if there is one, those of `last`. -/
structure Journeys {D : Type} [Directory D] (p : Plan) (address : BenchLock → LockId)
    (choices : Choices) (count : Nat) (w w' : Worker D) (paths : List (List BenchLock))
    (last : List BenchLock) (fault : Option Fault) : Prop where
  run : Operation.times (p.operation address choices) count w = w'.ended fault
  /-- Every path is entered, and left the last lock first, before the next one is entered. -/
  steps : w'.steps = (paths.flatMap round ++ round last).reverse ++ w.steps
  completed : ∀ path ∈ paths, ∃ route, p.IsRoute route ∧
    p.Enters address (Directory.ledger w.directory) route path
  finished : fault = none → paths.length = count ∧ last = []
  refused : fault.isSome → paths.length < count ∧ p.mode.isShielded = true ∧ ∃ reached rest,
    p.IsRoute (reached ++ rest) ∧
    Entry.Once address (Directory.ledger w.directory) reached last ∧
    Entry.Ends (Directory.capacity w.directory) address p.mode.reentrancy
      (Directory.ledger w.directory) last rest fault
  balanced : ∀ lock, (paths.flatMap round ++ round last).count (.enter lock) =
    (paths.flatMap round ++ round last).count (.leave lock)
  /-- Behind a shield nothing really happens to a lock that the worker had before. -/
  untouched : p.mode.isShielded = true → ∀ lock, address lock ∈ Directory.ledger w.directory →
    RealStep.enter lock ∉ paths.flatMap round ++ round last ∧
    RealStep.leave lock ∉ paths.flatMap round ++ round last

variable {p : Plan} {address : BenchLock → LockId} {capacity : Option Nat} {m : Ledger}
  {route path : List BenchLock} {count : Nat} {steps : List RealStep} {fault : Option Fault}

theorem Admitted.runnable (h : p.Admitted) : p.workload.Runnable := by
  rcases h with h | ⟨-, depth, hdepth, hload⟩
  · exact runnable_of_workload h
  · rw [hload]
    exact Nat.lt_trans Nat.one_pos (UInt64.lt_iff_toNat_lt.mp hdepth)

theorem IsRoute.hasLock (hids : Set.InjOn address {lock | p.HasLock lock})
    (h : p.IsRoute route) : ∀ lock ∈ route, p.HasLock lock := by
  have hone : p.HasLock (p.workload.lock p.mode) := by
    have hlevel : ∀ i j, p.workload.lock p.mode ≠ .level i j := by
      intro i j
      unfold Workload.lock
      split
      · nofun
      · split <;> nofun
    cases hlock : p.workload.lock p.mode with
    | level i j => exact absurd hlock (hlevel i j)
    | _ => trivial
  unfold IsRoute at h
  split at h
  · subst h
    intro lock hlock
    rwa [List.mem_singleton.mp hlock]
  · subst h
    intro lock hlock
    rwa [List.eq_of_mem_replicate hlock]
  · rename_i hload
    obtain ⟨start, hstart, hstair⟩ := h
    exact (fresh_stair hids hload hstart hstair).2.2

/-- **An operation**, let in everywhere or refused a lock. -/
theorem ascent_enters (hids : Set.InjOn address {lock | p.HasLock lock}) (hroute : p.IsRoute route)
    (h : (p.entry address capacity).ascent m route = (path, fault)) :
    (fault = none → p.Enters address m route path) ∧
      (fault.isSome → p.mode.isShielded = true ∧ ∃ reached rest, route = reached ++ rest ∧
        Entry.Once address m reached path ∧
        Entry.Ends capacity address p.mode.reentrancy m path rest fault) := by
  unfold entry at h
  split at h
  · rename_i hshielded
    obtain ⟨reached, rest, hlocks, honce, hends⟩ :=
      Entry.shielded_ascent_once hids (hroute.hasLock hids) h
    refine ⟨fun hnone => ?_, fun _ => ⟨hshielded, reached, rest, hlocks, honce, hends⟩⟩
    rw [Enters, if_pos hshielded, hlocks]
    subst hnone
    cases hends
    rwa [List.append_nil]
  · rename_i hraw
    rw [Entry.ascent_raw] at h
    obtain ⟨rfl, rfl⟩ := Prod.mk.inj h
    refine ⟨fun _ => ?_, nofun⟩
    rw [Enters, if_neg hraw]

theorem Works.paths {entry : Entry} (h : p.Works entry m count steps fault) :
    ∃ (paths : List (List BenchLock)) (last : List BenchLock),
    steps = paths.flatMap round ++ round last ∧
    (∀ path ∈ paths, ∃ route, p.IsRoute route ∧ entry.ascent m route = (path, none)) ∧
    (fault = none → paths.length = count ∧ last = []) ∧
    (fault.isSome → paths.length < count ∧
      ∃ route, p.IsRoute route ∧ entry.ascent m route = (last, fault)) := by
  induction h with
  | rest => exact ⟨[], [], rfl, fun _ h => absurd h List.not_mem_nil, fun _ => ⟨rfl, rfl⟩, nofun⟩
  | @on count route path steps fault hroute he _ ih =>
    obtain ⟨paths, last, rfl, hcompleted, hfinished, hrefused⟩ := ih
    refine ⟨path :: paths, last, ?_, ?_, fun hnone => ?_, fun hsome => ?_⟩
    · rw [List.flatMap_cons, List.append_assoc]
    · intro other hother
      rcases List.mem_cons.mp hother with rfl | hother
      · exact ⟨route, hroute, he⟩
      · exact hcompleted other hother
    · obtain ⟨hlength, hlast⟩ := hfinished hnone
      exact ⟨by rw [List.length_cons, hlength], hlast⟩
    · obtain ⟨hlength, hlast⟩ := hrefused hsome
      exact ⟨Nat.succ_lt_succ hlength, hlast⟩
  | @refused count route path fault hroute he =>
    exact ⟨[], path, rfl, fun _ h => absurd h List.not_mem_nil, nofun,
      fun _ => ⟨Nat.succ_pos count, route, hroute, he⟩⟩

theorem Works.journeys (hids : Set.InjOn address {lock | p.HasLock lock})
    (h : p.Works (p.entry address capacity) m count steps fault) :
    ∃ (paths : List (List BenchLock)) (last : List BenchLock),
    steps = paths.flatMap round ++ round last ∧
    (∀ path ∈ paths, ∃ route, p.IsRoute route ∧ p.Enters address m route path) ∧
    (fault = none → paths.length = count ∧ last = []) ∧
    (fault.isSome → paths.length < count ∧ p.mode.isShielded = true ∧ ∃ reached rest,
      p.IsRoute (reached ++ rest) ∧ Entry.Once address m reached last ∧
      Entry.Ends capacity address p.mode.reentrancy m last rest fault) := by
  obtain ⟨paths, last, hsteps, hcompleted, hfinished, hrefused⟩ := h.paths
  refine ⟨paths, last, hsteps, fun path hpath => ?_, hfinished, fun hsome => ?_⟩
  · obtain ⟨route, hroute, he⟩ := hcompleted path hpath
    exact ⟨route, hroute, (ascent_enters hids hroute he).1 rfl⟩
  · obtain ⟨hlength, route, hroute, he⟩ := hrefused hsome
    obtain ⟨hshielded, reached, rest, rfl, honce, hends⟩ :=
      (ascent_enters hids hroute he).2 hsome
    exact ⟨hlength, hshielded, reached, rest, hroute, honce, hends⟩

open RestoringDirectory in
theorem times_journeys {D : Type} [Directory D] [LawfulDirectory D] [ReversibleDirectory D]
    {w : Worker D} (hp : p.Admitted) (hids : Set.InjOn address {lock | p.HasLock lock})
    (choices : Choices) (count : Nat) (hw : Fit w.directory) :
    ∃ w' paths last fault made, p.Journeys address choices count w w' paths last fault ∧
      w'.directory = spent w.directory made := by
  have hhas : w.Has (Directory.capacity w.directory) (Directory.ledger w.directory) :=
    ⟨hw, rfl, rfl⟩
  obtain ⟨steps, fault, w', made, hrun, hworks, hback⟩ :=
    times_law address choices hp.runnable count hhas
  obtain ⟨paths, last, rfl, hcompleted, hfinished, hrefused⟩ := hworks.journeys hids
  refine ⟨w', paths, last, fault, made, ⟨hrun, hback.steps, hcompleted, hfinished, hrefused,
    fun lock => ?_, fun hshielded lock hlock => notMem_rounds (fun path hpath hmem => ?_)
      fun hmem => ?_⟩, hback.directory⟩
  · obtain ⟨henter, hleave⟩ := count_round last lock
    rw [List.count_append, List.count_append, henter, hleave, count_rounds]
  · obtain ⟨route, -, henters⟩ := hcompleted path hpath
    rw [Enters, if_pos hshielded] at henters
    exact henters.new lock hmem hlock
  · cases hfault : fault with
    | none =>
      rw [(hfinished hfault).2] at hmem
      exact List.not_mem_nil hmem
    | some refusal =>
      obtain ⟨-, -, reached, rest, -, honce, -⟩ := hrefused (by rw [hfault]; rfl)
      exact honce.new lock hmem hlock

/-- **Operations leave no trace**, whether all of them succeed or one of them is refused a lock, and
whatever the worker has before: a slot table is the same slot by slot, and a pooled directory chain
by chain and node by node. -/
theorem operations_leave_no_trace (hp : p.Admitted)
    (hids : Set.InjOn address {lock | p.HasLock lock}) (choices : Choices) (count : Nat) :
    (∀ {n : Nat} (w : Worker (SlotTable n)), w.directory.Sound → ∃ w' paths last fault,
      p.Journeys address choices count w w' paths last fault ∧ w'.directory = w.directory) ∧
    (∀ w : Worker PooledDirectory, w.directory.Sound → w.directory.Stocked [] →
      ∃ w' paths last fault made, p.Journeys address choices count w w' paths last fault ∧
        w'.directory = w.directory.spent made) := by
  refine ⟨fun w hw => ?_, fun w hw hs => times_journeys hp hids choices count ⟨hw, hs⟩⟩
  obtain ⟨w', paths, last, fault, made, hj, hsame⟩ :=
    times_journeys (w := w) hp hids choices count hw
  exact ⟨w', paths, last, fault, hj, hsame⟩

/-- A worker with a table of one slot climbs two levels: it is let in to the first one, refused the
second one, and goes back. -/
theorem operations_leave_no_trace_refused :
    let p : Plan := ⟨1, 3, 0, 0, .shieldedStrict, .hierarchical 2 1 2, .bounded, false, 0⟩
    let site := p.site (fun _ => 0) .standard 1
    ∃ w', Operation.times (p.operation site.address fun _ _ => 0) 3
        (Worker.start (SlotTable.empty 1)) =
          .error (.refused (.capacityExceeded (site.address (.level 1 0)) 1)) w' ∧
      w'.directory = SlotTable.empty 1 ∧
      w'.steps = [.leave (.level 0 0), .enter (.level 0 0)] := by
  intro p site
  have hids : Set.InjOn site.address {lock | p.HasLock lock} := site_injOn rfl (by decide) _ _ _
  obtain ⟨w', paths, last, fault, hj, hsame⟩ :=
    (operations_leave_no_trace (.inl rfl) hids (fun _ _ => 0) 3).1
      (Worker.start (SlotTable.empty 1)) (SlotTable.sound_empty 1).1
  have hrun : Operation.times (p.operation site.address fun _ _ => 0) 3
      (Worker.start (SlotTable.empty 1)) =
        .error (.refused (.capacityExceeded (site.address (.level 1 0)) 1))
          ⟨SlotTable.empty 1, [.leave (.level 0 0), .enter (.level 0 0)], [], 3⟩ := rfl
  have hend := hj.run.symm.trans hrun
  cases fault with
  | none => cases hend
  | some refusal =>
    obtain ⟨-, rfl⟩ := EStateM.Result.error.inj hend
    exact ⟨_, hrun, hsame, rfl⟩

end Plan

end LockElision
