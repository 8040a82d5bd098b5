import LockElision.Proofs.Shield.Reference

/-!
# What is seen of a call

A `Sighting` is all that one sees of a shielded call: how it ended, which real operations it called,
and how deep the thread is in its lock afterwards. `Shield.watch` gives the sightings of a run of
calls, by writing down every call of a real operation (`Real.recorded`), and changes nothing about
the run (`watch_play`). On a finite map `Ledger.watch` sees the same (`watch_law`).

For the map each call is told once and for all: it is refused only for want of room
(`refused_iff`), it leaves other locks alone (`lookup_observe_ne`), and as long as it is not refused
it comes to what it would come to without a bound (`observe_of_accepted`), which depends on nothing
but the depth of its own lock (`observe_congr`).
-/

namespace LockElision

/-- What is seen of one call. -/
structure Sighting where
  side : Side
  call : Call
  ended : Except Panic CallStatus
  /-- The calls of real operations. -/
  real : List (Side × Call)
  /-- How deep the thread is in the lock of the call, after it. -/
  depth : Option Nat

/-- The call found the directory full. -/
def Sighting.refused (x : Sighting) : Bool :=
  match x.ended with
  | .ok (.acquired .full) => true
  | _ => false

/-- No call found the directory full. -/
def Unrefused (seen : List Sighting) : Prop := ∀ x ∈ seen, x.refused = false

/-- The real operations called during a run, in their order. -/
def realCalls (seen : List Sighting) : List (Side × Call) := seen.flatMap Sighting.real

theorem unrefused_cons {x : Sighting} {seen : List Sighting} :
    Unrefused (x :: seen) ↔ x.refused = false ∧ Unrefused seen :=
  List.forall_mem_cons

theorem realCalls_append (seen seen' : List Sighting) :
    realCalls (seen ++ seen') = realCalls seen ++ realCalls seen' :=
  List.flatMap_append

theorem realCalls_cons (x : Sighting) (seen : List Sighting) :
    realCalls (x :: seen) = x.real ++ realCalls seen :=
  List.flatMap_cons

namespace Shield

variable {D W : Type}

/-- The same real operations, with every call of them written down. -/
def Real.recorded (real : Real W) : Real (W × List (Side × Call)) :=
  fun side c w => (real side c w.1, w.2 ++ [(side, c)])

theorem Real.runAll_recorded (real : Real W) (world : W) (log calls : List (Side × Call)) :
    real.recorded.runAll (world, log) calls = (real.runAll world calls, log ++ calls) := by
  induction calls generalizing world log with
  | nil => rw [List.append_nil]; rfl
  | cons c calls ih =>
    show real.recorded.runAll (real c.1 c.2 world, log ++ [c]) calls = _
    rw [ih, List.append_assoc]
    rfl

variable [Directory D]

/-- One call and what is seen of it. -/
def observe (real : Real W) (s : Shield D W) (side : Side) (c : Call) : Sighting × Shield D W :=
  let r := Shield.call real.recorded ⟨s.directory, (s.world, [])⟩ c side
  (⟨side, c, r.1, r.2.world.2, (Directory.find? r.2.directory c.lock).map Holding.depth⟩,
    ⟨r.2.directory, r.2.world.1⟩)

def watch (real : Real W) (s : Shield D W) : List (Side × Call) → List Sighting × Shield D W
  | [] => ([], s)
  | (side, c) :: calls =>
    let (x, s) := s.observe real side c
    let (seen, s) := s.watch real calls
    (x :: seen, s)

theorem watch_cons (real : Real W) (s : Shield D W) (side : Side) (c : Call)
    (calls : List (Side × Call)) : s.watch real ((side, c) :: calls) =
      ((s.observe real side c).1 :: ((s.observe real side c).2.watch real calls).1,
        ((s.observe real side c).2.watch real calls).2) := rfl

theorem observe_call (real : Real W) (s : Shield D W) (side : Side) (c : Call) :
    (s.observe real side c).1.ended = (s.call real c side).1 ∧
      (s.observe real side c).2 = (s.call real c side).2 := by
  cases side with
  | lock =>
    simp only [observe, call, acquire, scope]
    generalize admission s.directory c.lock c.mode = a
    obtain ⟨status, d, notice⟩ := a
    cases status <;> exact ⟨rfl, rfl⟩
  | unlock =>
    simp only [observe, call, release, scope]
    generalize withdrawal s.directory c.lock c.mode = a
    obtain ⟨status, d⟩ := a
    cases status <;> exact ⟨rfl, rfl⟩

/-- **Watching a run changes nothing about it.** -/
theorem watch_play (real : Real W) (calls : List (Side × Call)) : ∀ s : Shield D W,
    (s.watch real calls).1.map Sighting.ended = (s.play real calls).1 ∧
      (s.watch real calls).2 = (s.play real calls).2 := by
  induction calls with
  | nil => exact fun _ => ⟨rfl, rfl⟩
  | cons first calls ih =>
    intro s
    obtain ⟨side, c⟩ := first
    obtain ⟨hended, hs⟩ := s.observe_call real side c
    obtain ⟨hrest, hend⟩ := ih (s.observe real side c).2
    rw [hs] at hrest hend
    rw [watch_cons, hs, List.map_cons, hended, hrest, hend]
    exact ⟨rfl, rfl⟩

end Shield

namespace Ledger

/-- What is seen of a call on a finite map, and the map after it. -/
def observe (capacity : Option Nat) (m : Ledger) (side : Side) (c : Call) : Sighting × Ledger :=
  let (status, m) := m.call capacity c side
  (⟨side, c, .ok status, status.reached side c, m.lookup c.lock⟩, m)

def watch (capacity : Option Nat) (m : Ledger) : List (Side × Call) → List Sighting × Ledger
  | [] => ([], m)
  | (side, c) :: calls =>
    let (x, m) := m.observe capacity side c
    let (seen, m) := m.watch capacity calls
    (x :: seen, m)

variable {capacity : Option Nat} {m m' : Ledger} {side : Side} {c : Call}

theorem watch_cons (calls : List (Side × Call)) : m.watch capacity ((side, c) :: calls) =
    ((m.observe capacity side c).1 :: ((m.observe capacity side c).2.watch capacity calls).1,
      ((m.observe capacity side c).2.watch capacity calls).2) := rfl

theorem watch_append (calls calls' : List (Side × Call)) : ∀ m : Ledger,
    m.watch capacity (calls ++ calls') =
      ((m.watch capacity calls).1 ++ ((m.watch capacity calls).2.watch capacity calls').1,
        ((m.watch capacity calls).2.watch capacity calls').2) := by
  induction calls with
  | nil => exact fun _ => rfl
  | cons first calls ih =>
    intro m
    obtain ⟨side, c⟩ := first
    rw [List.cons_append, watch_cons, ih, watch_cons]
    rfl

theorem lookup_observe_self : (m.observe capacity side c).2.lookup c.lock =
    (m.observe capacity side c).1.depth := rfl

theorem lookup_observe_ne {other : LockId} (h : other ≠ c.lock) :
    (m.observe capacity side c).2.lookup other = m.lookup other := by
  cases side with
  | lock => exact lookup_enter_ne h
  | unlock => exact lookup_withdraw_ne h

theorem refused_iff : (m.observe capacity side c).1.refused = true ↔
    side = .lock ∧ m.lookup c.lock = none ∧ m.hasRoom capacity = false := by
  cases side with
  | lock =>
    show Sighting.refused ⟨_, _, .ok (.acquired (m.enter capacity c.lock c.mode).1), _, _⟩ = _ ↔ _
    cases hl : m.lookup c.lock with
    | none =>
      rw [enter_of_absent hl]
      cases m.hasRoom capacity <;> simp [Sighting.refused]
    | some n =>
      cases hmode : c.mode with
      | reentrant => rw [enter_reentrant hl]; simp [Sighting.refused]
      | strict => rw [enter_strict hl]; simp [Sighting.refused]
  | unlock => simp [observe, call, Sighting.refused]

theorem accepted_of_unbounded : (m.observe none side c).1.refused = false := by
  rw [← Bool.not_eq_true, refused_iff]
  rintro ⟨-, -, h⟩
  cases h

theorem observe_of_accepted (h : (m.observe capacity side c).1.refused = false) :
    m.observe capacity side c = m.observe none side c := by
  cases side with
  | unlock => rfl
  | lock =>
    have henter : m.enter capacity c.lock c.mode = m.enter none c.lock c.mode := by
      cases hl : m.lookup c.lock with
      | none =>
        have hroom : m.hasRoom capacity = true := by
          by_contra hfull
          rw [refused_iff.mpr ⟨rfl, hl, Bool.eq_false_of_not_eq_true hfull⟩] at h
          cases h
        rw [enter_of_absent hl, enter_of_absent hl, if_pos hroom]
        rfl
      | some n =>
        cases hmode : c.mode with
        | reentrant => rw [enter_reentrant hl, enter_reentrant hl]
        | strict => rw [enter_strict hl, enter_strict hl]
    rw [observe, observe, call, call, henter]

theorem enter_unbounded {lock : LockId} {mode : Reentrancy} (h : m.lookup lock = none) :
    m.enter none lock mode = (.entered, m.insert lock 1) :=
  enter_of_absent h

theorem enter_congr {lock : LockId} (h : m'.lookup lock = m.lookup lock) (mode : Reentrancy) :
    (m'.enter none lock mode).1 = (m.enter none lock mode).1 ∧
      (m'.enter none lock mode).2.lookup lock = (m.enter none lock mode).2.lookup lock := by
  have inserted (k : Nat) : (m'.insert lock k).lookup lock = (m.insert lock k).lookup lock := by
    rw [Finmap.lookup_insert, Finmap.lookup_insert]
  cases hl : m.lookup lock with
  | none =>
    rw [enter_unbounded hl, enter_unbounded (h.trans hl)]
    exact ⟨rfl, inserted 1⟩
  | some n =>
    cases mode with
    | reentrant =>
      rw [enter_reentrant hl, enter_reentrant (h.trans hl)]
      exact ⟨rfl, inserted (n + 1)⟩
    | strict =>
      rw [enter_strict hl, enter_strict (h.trans hl)]
      exact ⟨rfl, h⟩

theorem withdraw_congr {lock : LockId} (h : m'.lookup lock = m.lookup lock) (mode : Reentrancy) :
    (m'.withdraw lock mode).1 = (m.withdraw lock mode).1 ∧
      (m'.withdraw lock mode).2.lookup lock = (m.withdraw lock mode).2.lookup lock := by
  have erased : (m'.erase lock).lookup lock = (m.erase lock).lookup lock := by
    rw [Finmap.lookup_erase, Finmap.lookup_erase]
  cases hl : m.lookup lock with
  | none =>
    rw [withdraw_of_absent hl, withdraw_of_absent (h.trans hl)]
    exact ⟨rfl, h⟩
  | some n =>
    cases mode with
    | reentrant =>
      rw [withdraw_reentrant hl, withdraw_reentrant (h.trans hl)]
      split
      · exact ⟨rfl, by rw [Finmap.lookup_insert, Finmap.lookup_insert]⟩
      · exact ⟨rfl, erased⟩
    | strict =>
      rw [withdraw_strict hl, withdraw_strict (h.trans hl)]
      exact ⟨rfl, erased⟩

theorem observe_congr (h : m'.lookup c.lock = m.lookup c.lock) :
    (m'.observe none side c).1 = (m.observe none side c).1 := by
  cases side with
  | lock =>
    obtain ⟨hstatus, hdepth⟩ := enter_congr h c.mode
    simp only [observe, call, hstatus, hdepth]
  | unlock =>
    obtain ⟨hstatus, hdepth⟩ := withdraw_congr h c.mode
    simp only [observe, call, hstatus, hdepth]

theorem watch_of_unrefused (calls : List (Side × Call)) : ∀ m : Ledger,
    Unrefused (m.watch capacity calls).1 → m.watch capacity calls = m.watch none calls := by
  induction calls with
  | nil => exact fun _ _ => rfl
  | cons first calls ih =>
    intro m h
    obtain ⟨side, c⟩ := first
    rw [watch_cons, unrefused_cons] at h
    rw [watch_cons, watch_cons, ih _ h.2, observe_of_accepted h.1]

theorem unrefused_of_unbounded (calls : List (Side × Call)) : ∀ m : Ledger,
    Unrefused (m.watch none calls).1 := by
  induction calls with
  | nil => exact fun _ _ hx => by cases hx
  | cons first calls ih =>
    intro m
    obtain ⟨side, c⟩ := first
    rw [watch_cons, unrefused_cons]
    exact ⟨accepted_of_unbounded, ih _⟩

end Ledger

namespace Shield

open LawfulDirectory

variable {D W : Type} [Directory D] [LawfulDirectory D] {s : Shield D W}

/-- One call is seen as on the map the directory stands for. -/
theorem observe_law (hs : Sound s.directory) (real : Real W) (side : Side) (c : Call) :
    let r := (Directory.ledger s.directory).observe (Directory.capacity s.directory) side c
    (s.observe real side c).1 = r.1 ∧
      Becomes Sound s.directory (s.observe real side c).2.directory r.2 ∧
      (s.observe real side c).2.world = real.runAll s.world r.1.real := by
  intro r
  obtain ⟨hended, hb, hworld⟩ := call_matches (s := ⟨s.directory, (s.world, [])⟩) hs real.recorded
    c side
  rw [Real.runAll_recorded, List.nil_append] at hworld
  refine ⟨?_, hb, congrArg Prod.fst hworld⟩
  simp only [observe, hended, hworld, ← lookup_ledger hb.sound, hb.ledger]
  rfl

theorem watch_law (real : Real W) (calls : List (Side × Call)) : ∀ s : Shield D W,
    Sound s.directory →
    let r := (Directory.ledger s.directory).watch (Directory.capacity s.directory) calls
    (s.watch real calls).1 = r.1 ∧
      Becomes Sound s.directory (s.watch real calls).2.directory r.2 ∧
      (s.watch real calls).2.world = real.runAll s.world (realCalls r.1) := by
  induction calls with
  | nil => exact fun s hs => ⟨rfl, .refl hs, rfl⟩
  | cons first calls ih =>
    intro s hs
    obtain ⟨side, c⟩ := first
    obtain ⟨hseen, hb, hworld⟩ := observe_law hs real side c
    obtain ⟨hrest, hb', hworld'⟩ := ih _ hb.sound
    rw [hb.capacity, hb.ledger] at hrest hb' hworld'
    rw [watch_cons, Ledger.watch_cons]
    refine ⟨?_, ⟨hb'.sound, hb'.capacity.trans hb.capacity, hb'.ledger⟩, ?_⟩
    · rw [hseen, hrest]
    · refine hworld'.trans ?_
      rw [hworld, realCalls_cons, Real.runAll, Real.runAll, Real.runAll, List.foldl_append]

theorem watch_table (real : Real W) (world : W) (n : Nat) (calls : List (Side × Call)) :
    let s := (⟨SlotTable.empty n, world⟩ : Shield (SlotTable n) W)
    let r := Ledger.watch (some n) ∅ calls
    (s.watch real calls).1 = r.1 ∧ Becomes Sound s.directory (s.watch real calls).2.directory r.2 ∧
      (s.watch real calls).2.world = real.runAll world (realCalls r.1) := by
  intro s r
  have h := watch_law real calls s (SlotTable.sound_empty n).1
  rwa [SlotTable.ledger_empty] at h

theorem watch_pool (real : Real W) (world : W) (hash : LockId → UInt64) (poolSize buckets : Nat)
    (calls : List (Side × Call)) :
    let s := (⟨PooledDirectory.create hash poolSize buckets, world⟩ : Shield PooledDirectory W)
    let r := Ledger.watch none ∅ calls
    (s.watch real calls).1 = r.1 ∧ Becomes Sound s.directory (s.watch real calls).2.directory r.2 ∧
      (s.watch real calls).2.world = real.runAll world (realCalls r.1) := by
  intro s r
  have h := watch_law real calls s (PooledDirectory.sound_create ..).1
  rwa [PooledDirectory.ledger_create] at h

end Shield

end LockElision
