import LockElision.Proofs.Shield.Isolation

/-!
# Balanced nesting

In a balanced run every lock is released as often as it is acquired, and never more often so far. It
falls into stretches in which the balance of a lock is positive (`Nesting`). The calls of other
locks may stand anywhere between: what happens to a lock is told by its own calls
(`Ledger.Narrows.watch`), and these are split where the balance comes back to 0 (`exists_return`).
-/

namespace LockElision

def acquires (calls : List (Side × Call)) : Nat := calls.countP (·.1 = .lock)

def releases (calls : List (Side × Call)) : Nat := calls.countP (·.1 = .unlock)

/-- The calls on one lock. -/
def callsOn (lock : LockId) (calls : List (Side × Call)) : List (Side × Call) :=
  callsIn {other | other = lock} calls

/-- As many releases as acquires, and at no time more. -/
structure Balanced (calls : List (Side × Call)) : Prop where
  covered : ∀ part, part <+: calls → releases part ≤ acquires part
  closed : acquires calls = releases calls

instance (calls : List (Side × Call)) : Decidable (Balanced calls) :=
  decidable_of_iff ((∀ part ∈ calls.inits, releases part ≤ acquires part) ∧
      acquires calls = releases calls)
    ⟨fun h => ⟨fun part hpart => h.1 part ((List.mem_inits _ _).mpr hpart), h.2⟩,
      fun h => ⟨fun part hpart => h.covered part ((List.mem_inits _ _).mp hpart), h.closed⟩⟩

/-- A stretch of calls in which the balance is positive until the last call brings it back to 0. -/
structure Nesting where
  first : Call
  inside : List (Side × Call)
  last : Call
  positive : ∀ part, part <+: (.lock, first) :: inside → part ≠ [] → releases part < acquires part
  closed : acquires ((.lock, first) :: inside) = releases ((.lock, first) :: inside) + 1

namespace Nesting

def calls (stretch : Nesting) : List (Side × Call) :=
  (.lock, stretch.first) :: stretch.inside ++ [(.unlock, stretch.last)]

/-- The real operations of the outermost acquire and of the release that matches it. -/
def ends (stretch : Nesting) : List (Side × Call) :=
  [(.lock, stretch.first), (.unlock, stretch.last)]

end Nesting

/-! ## Where the balance comes back -/

section Splitting

variable {calls : List (Side × Call)} {c : Call} {k : Nat}

@[simp] theorem acquires_acquire : acquires ((.lock, c) :: calls) = acquires calls + 1 := by
  simp [acquires]

@[simp] theorem acquires_release : acquires ((.unlock, c) :: calls) = acquires calls := by
  simp [acquires]

@[simp] theorem releases_acquire : releases ((.lock, c) :: calls) = releases calls := by
  simp [releases]

@[simp] theorem releases_release : releases ((.unlock, c) :: calls) = releases calls + 1 := by
  simp [releases]

/-- At no time more releases than acquires, for somebody who begins with `k` levels. -/
def Covered (k : Nat) (calls : List (Side × Call)) : Prop :=
  ∀ part, part <+: calls → releases part ≤ acquires part + k

theorem Covered.acquire (h : Covered k ((.lock, c) :: calls)) : Covered (k + 1) calls := by
  intro part hpart
  have := h ((.lock, c) :: part) ((List.prefix_cons_inj _).mpr hpart)
  simp only [acquires_acquire, releases_acquire] at this
  omega

theorem Covered.release (h : Covered k ((.unlock, c) :: calls)) :
    ∃ j, k = j + 1 ∧ Covered j calls := by
  have hfirst := h [(.unlock, c)] ((List.prefix_cons_inj _).mpr List.nil_prefix)
  obtain ⟨j, rfl⟩ : ∃ j, k = j + 1 := ⟨k - 1, by simp [acquires, releases] at hfirst; omega⟩
  refine ⟨j, rfl, fun part hpart => ?_⟩
  have := h ((.unlock, c) :: part) ((List.prefix_cons_inj _).mpr hpart)
  simp only [acquires_release, releases_release] at this
  omega

theorem Covered.cons_acquire (h : Covered (k + 1) calls) : Covered k ((.lock, c) :: calls) := by
  intro part hpart
  rcases List.prefix_cons_iff.mp hpart with rfl | ⟨rest, rfl, hrest⟩
  · exact Nat.zero_le _
  · have := h rest hrest
    simp only [acquires_acquire, releases_acquire]
    omega

theorem Covered.cons_release (h : Covered k calls) : Covered (k + 1) ((.unlock, c) :: calls) := by
  intro part hpart
  rcases List.prefix_cons_iff.mp hpart with rfl | ⟨rest, rfl, hrest⟩
  · exact Nat.zero_le _
  · have := h rest hrest
    simp only [acquires_release, releases_release]
    omega

/-- Calls that give back `k` levels and one more come to the release that gives back that one. -/
theorem exists_return (calls : List (Side × Call)) : ∀ k, Covered (k + 1) calls →
    releases calls = acquires calls + k + 1 →
    ∃ inside last rest, calls = inside ++ (.unlock, last) :: rest ∧ Covered k inside ∧
      releases inside = acquires inside + k ∧ Balanced rest := by
  induction calls with
  | nil => exact fun k _ h => by simp [acquires, releases] at h
  | cons first calls ih =>
    intro k hcovered hclosed
    obtain ⟨_ | _, c⟩ := first
    · simp only [acquires_acquire, releases_acquire] at hclosed
      obtain ⟨inside, last, rest, rfl, hinside, hlevel, hrest⟩ :=
        ih (k + 1) hcovered.acquire (by omega)
      refine ⟨(.lock, c) :: inside, last, rest, rfl, hinside.cons_acquire, ?_, hrest⟩
      simp only [acquires_acquire, releases_acquire]
      omega
    · simp only [acquires_release, releases_release] at hclosed
      obtain ⟨j, hj, hcovered⟩ := hcovered.release
      obtain rfl : k = j := Nat.succ.inj hj
      cases k with
      | zero =>
        exact ⟨[], c, calls, rfl, fun part hpart => by simp [List.prefix_nil.mp hpart, releases],
          rfl, hcovered, by omega⟩
      | succ k =>
        obtain ⟨inside, last, rest, rfl, hinside, hlevel, hrest⟩ := ih k hcovered (by omega)
        refine ⟨(.unlock, c) :: inside, last, rest, rfl, hinside.cons_release, ?_, hrest⟩
        simp only [acquires_release, releases_release]
        omega

theorem Nesting.covered_inside (stretch : Nesting) : Covered 0 stretch.inside := by
  intro part hpart
  have := stretch.positive _ ((List.prefix_cons_inj _).mpr hpart) (List.cons_ne_nil _ _)
  simp only [acquires_acquire, releases_acquire] at this
  omega

theorem Nesting.closed_inside (stretch : Nesting) :
    acquires stretch.inside = releases stretch.inside := by
  have := stretch.closed
  simp only [acquires_acquire, releases_acquire] at this
  omega

theorem Balanced.split (h : Balanced calls) (hne : calls ≠ []) :
    ∃ (stretch : Nesting) (rest : List (Side × Call)),
      calls = stretch.calls ++ rest ∧ Balanced rest := by
  have hcovered : Covered 0 calls := h.covered
  obtain ⟨⟨_ | _, first⟩, tail, rfl⟩ := List.exists_cons_of_ne_nil hne
  · have hclosed := h.closed
    simp only [acquires_acquire, releases_acquire] at hclosed
    obtain ⟨inside, last, rest, rfl, hinside, hlevel, hrest⟩ :=
      exists_return tail 0 hcovered.acquire (by omega)
    refine ⟨⟨first, inside, last, fun part hpart hne => ?_, ?_⟩, rest, ?_, hrest⟩
    · rcases List.prefix_cons_iff.mp hpart with rfl | ⟨within, rfl, hwithin⟩
      · exact absurd rfl hne
      · have := hinside within hwithin
        simp only [acquires_acquire, releases_acquire]
        omega
    · simp only [acquires_acquire, releases_acquire]
      omega
    · simp [Nesting.calls]
  · obtain ⟨j, hj, -⟩ := hcovered.release
    cases hj

theorem Balanced.stretches (h : Balanced calls) :
    ∃ stretches : List Nesting, calls = stretches.flatMap Nesting.calls := by
  induction hlen : calls.length using Nat.strong_induction_on generalizing calls with
  | _ len ih =>
    by_cases hne : calls = []
    · exact ⟨[], hne⟩
    · obtain ⟨stretch, rest, rfl, hrest⟩ := h.split hne
      have hshorter : rest.length < len := by
        rw [← hlen, List.length_append, Nesting.calls, List.length_append]
        simp only [List.length_cons, List.length_nil]
        omega
      obtain ⟨stretches, rfl⟩ := ih _ hshorter hrest rfl
      exact ⟨stretch :: stretches, List.flatMap_cons.symm⟩

end Splitting

/-! ## The calls of one lock -/

namespace Ledger

variable {m : Ledger} {c : Call} {calls : List (Side × Call)} {lock : LockId} {n : Nat}

theorem observe_acquire_absent (hl : m.lookup c.lock = none) :
    (m.observe none .lock c).1.real = [(.lock, c)] ∧
      (m.observe none .lock c).2.lookup c.lock = some 1 := by
  simp only [observe, call, enter_unbounded hl]
  exact ⟨rfl, Finmap.lookup_insert _⟩

theorem observe_acquire_held (hmode : c.mode = .reentrant) (hl : m.lookup c.lock = some n) :
    (m.observe none .lock c).1.real = [] ∧
      (m.observe none .lock c).2.lookup c.lock = some (n + 1) := by
  simp only [observe, call, hmode, enter_reentrant hl]
  exact ⟨rfl, Finmap.lookup_insert _⟩

theorem observe_release_nested (hmode : c.mode = .reentrant)
    (hl : m.lookup c.lock = some (n + 1)) (hn : 1 ≤ n) :
    (m.observe none .unlock c).1.real = [] ∧
      (m.observe none .unlock c).2.lookup c.lock = some n := by
  have hnested : 1 < n + 1 := by omega
  simp only [observe, call, hmode, withdraw_reentrant hl, if_pos hnested]
  exact ⟨rfl, Finmap.lookup_insert _⟩

theorem observe_release_last (hmode : c.mode = .reentrant) (hl : m.lookup c.lock = some 1) :
    (m.observe none .unlock c).1.real = [(.unlock, c)] ∧
      (m.observe none .unlock c).2.lookup c.lock = none := by
  simp only [observe, call, hmode, withdraw_reentrant hl, if_neg (Nat.lt_irrefl 1)]
  exact ⟨rfl, Finmap.lookup_erase _ _⟩

/-- Every call is a reentrant one on the lock. -/
def Reenters (lock : LockId) (calls : List (Side × Call)) : Prop :=
  ∀ x ∈ calls, x.2.lock = lock ∧ x.2.mode = .reentrant

/-- Inside other levels of the lock nothing is ever called. -/
theorem watch_inside (calls : List (Side × Call)) : ∀ (m : Ledger) (k : Nat),
    Reenters lock calls → Covered k calls → 1 ≤ n → m.lookup lock = some (n + k) →
    realCalls (m.watch none calls).1 = [] ∧
      (m.watch none calls).2.lookup lock = some (n + k + acquires calls - releases calls) := by
  induction calls with
  | nil => exact fun m k _ _ _ hl => ⟨rfl, hl⟩
  | cons first calls ih =>
    intro m k hcalls hcovered hn hl
    obtain ⟨⟨hlock, hmode⟩, hothers⟩ := List.forall_mem_cons.mp hcalls
    obtain ⟨_ | _, c⟩ := first
    · obtain rfl : c.lock = lock := hlock
      obtain ⟨hreal, hdepth⟩ := observe_acquire_held hmode hl
      obtain ⟨hrest, hend⟩ := ih _ (k + 1) hothers hcovered.acquire hn hdepth
      rw [watch_cons, realCalls_cons, hreal, hrest, hend, acquires_acquire, releases_acquire]
      exact ⟨rfl, congrArg some (by omega)⟩
    · obtain rfl : c.lock = lock := hlock
      obtain ⟨j, rfl, hlater⟩ := hcovered.release
      obtain ⟨hreal, hdepth⟩ := observe_release_nested (n := n + j) hmode hl (by omega)
      obtain ⟨hrest, hend⟩ := ih _ j hothers hlater hn hdepth
      rw [watch_cons, realCalls_cons, hreal, hrest, hend, acquires_release, releases_release]
      exact ⟨rfl, congrArg some (by omega)⟩

theorem watch_stretch (stretch : Nesting) (hcalls : Reenters lock stretch.calls)
    (hl : m.lookup lock = none) :
    realCalls (m.watch none stretch.calls).1 = stretch.ends ∧
      (m.watch none stretch.calls).2.lookup lock = none := by
  obtain ⟨hcalls, hlast⟩ := List.forall_mem_append.mp hcalls
  obtain ⟨⟨hfirst, -⟩, hcalls⟩ := List.forall_mem_cons.mp hcalls
  obtain ⟨hlock, hmode⟩ := hlast _ List.mem_cons_self
  have hfirst : stretch.first.lock = lock := hfirst
  have hlock : stretch.last.lock = lock := hlock
  subst hfirst
  obtain ⟨hreal, hdepth⟩ := observe_acquire_absent hl
  obtain ⟨hnone, hdepth⟩ := watch_inside stretch.inside _ 0 hcalls stretch.covered_inside
    (Nat.le_refl 1) hdepth
  have hlevel : 1 + 0 + acquires stretch.inside - releases stretch.inside = 1 := by
    have := stretch.closed_inside
    omega
  rw [hlevel, ← hlock] at hdepth
  obtain ⟨hreal', hdepth'⟩ := observe_release_last hmode hdepth
  rw [Nesting.calls, List.cons_append, watch_cons, watch_append, watch_cons, realCalls_cons,
    realCalls_append, realCalls_cons, hreal, hnone, hreal', ← hlock]
  exact ⟨rfl, hdepth'⟩

theorem watch_stretches (stretches : List Nesting) : ∀ m : Ledger,
    Reenters lock (stretches.flatMap Nesting.calls) → m.lookup lock = none →
    realCalls (m.watch none (stretches.flatMap Nesting.calls)).1 =
        stretches.flatMap Nesting.ends ∧
      (m.watch none (stretches.flatMap Nesting.calls)).2.lookup lock = none := by
  induction stretches with
  | nil => exact fun m _ hl => ⟨rfl, hl⟩
  | cons stretch stretches ih =>
    intro m hcalls hl
    rw [List.flatMap_cons] at hcalls ⊢
    obtain ⟨hfirst, hrest⟩ := List.forall_mem_append.mp hcalls
    obtain ⟨hreal, hdepth⟩ := watch_stretch stretch hfirst hl
    obtain ⟨hreals, hend⟩ := ih _ hrest hdepth
    rw [watch_append, realCalls_append, hreal, hreals, List.flatMap_cons]
    exact ⟨rfl, hend⟩

theorem real_observe {capacity : Option Nat} {side : Side} {x : Side × Call}
    (h : x ∈ (m.observe capacity side c).1.real) : x = (side, c) := by
  have h : x ∈ (m.call capacity c side).1.reached side c := h
  unfold CallStatus.reached at h
  split at h
  · exact List.mem_singleton.mp h
  · cases h

theorem callsIn_realCalls {capacity : Option Nat} {S : Set LockId} [DecidablePred (· ∈ S)]
    (calls : List (Side × Call)) : ∀ m : Ledger,
    callsIn S (realCalls (m.watch capacity calls).1) =
      realCalls (seenIn S (m.watch capacity calls).1) := by
  induction calls with
  | nil => exact fun _ => rfl
  | cons first calls ih =>
    intro m
    obtain ⟨side, c⟩ := first
    rw [watch_cons, realCalls_cons, callsIn, List.filter_append, ← callsIn, ← callsIn, ih]
    by_cases hc : c.lock ∈ S
    · rw [seenIn_of_mem hc, realCalls_cons, callsIn, List.filter_eq_self.mpr]
      intro x hx
      rw [real_observe hx]
      exact decide_eq_true hc
    · rw [seenIn_of_notMem hc, callsIn, List.filter_eq_nil_iff.mpr, List.nil_append]
      intro x hx
      rw [real_observe hx]
      simpa using hc

/-- What a run comes to for one lock is told by the calls on it. -/
theorem watch_callsOn (lock : LockId) (calls : List (Side × Call)) (m : Ledger) :
    callsOn lock (realCalls (m.watch none calls).1) =
        realCalls (m.watch none (callsOn lock calls)).1 ∧
      (m.watch none calls).2.lookup lock = (m.watch none (callsOn lock calls)).2.lookup lock := by
  obtain ⟨hseen, hend⟩ := (narrows_self {other | other = lock} m).watch calls
    (unrefused_of_unbounded calls m)
  refine ⟨?_, (hend.agree lock rfl).symm⟩
  rw [callsOn, callsIn_realCalls, hseen]
  rfl

theorem watch_balanced_held (hcalls : Reenters lock calls) (hbalanced : Balanced calls)
    (hn : 1 ≤ n) (hl : m.lookup lock = some n) :
    realCalls (m.watch none calls).1 = [] ∧ (m.watch none calls).2.lookup lock = some n := by
  obtain ⟨hreal, hend⟩ := watch_inside calls m 0 hcalls hbalanced.covered hn hl
  have hclosed := hbalanced.closed
  exact ⟨hreal, hend.trans (congrArg some (by omega))⟩

theorem watch_balanced_absent (hcalls : Reenters lock calls) (hbalanced : Balanced calls)
    (hl : m.lookup lock = none) : ∃ stretches : List Nesting,
    calls = stretches.flatMap Nesting.calls ∧
      realCalls (m.watch none calls).1 = stretches.flatMap Nesting.ends ∧
      (m.watch none calls).2.lookup lock = none := by
  obtain ⟨stretches, rfl⟩ := hbalanced.stretches
  exact ⟨stretches, rfl, watch_stretches stretches m hcalls hl⟩

end Ledger

namespace Shield

open LawfulDirectory

variable {D W : Type} [Directory D] {real : Real W} {s : Shield D W}

/-- The run leaves every lock recorded as it was. It calls no real operation of a lock that was
recorded from the start, and those of any other lock once for each stretch of nesting: one acquire,
then the release that matches it. -/
structure PaysOnce (real : Real W) (s : Shield D W) (calls : List (Side × Call)) : Prop where
  records : ∀ lock,
    Directory.find? (s.watch real calls).2.directory lock = Directory.find? s.directory lock
  held : ∀ lock h, Directory.find? s.directory lock = some h →
    callsOn lock (realCalls (s.watch real calls).1) = []
  absent : ∀ lock, Directory.find? s.directory lock = none → ∃ stretches : List Nesting,
    callsOn lock calls = stretches.flatMap Nesting.calls ∧
      callsOn lock (realCalls (s.watch real calls).1) = stretches.flatMap Nesting.ends

variable [LawfulDirectory D]

theorem pays_once (hs : Sound s.directory) {calls : List (Side × Call)}
    (hmode : ∀ x ∈ calls, x.2.mode = .reentrant)
    (hbalanced : ∀ lock, Balanced (callsOn lock calls))
    (hacc : Unrefused (s.watch real calls).1) : PaysOnce real s calls := by
  obtain ⟨hseen, hb, -⟩ := watch_law real calls s hs
  rw [hseen] at hacc
  rw [Ledger.watch_of_unrefused _ _ hacc] at hseen hb
  have hcalls (lock : LockId) : Ledger.Reenters lock (callsOn lock calls) := by
    intro x hx
    obtain ⟨hmem, hlock⟩ := List.mem_filter.mp hx
    exact ⟨of_decide_eq_true hlock, hmode x hmem⟩
  have hon (lock : LockId) := (Directory.ledger s.directory).watch_callsOn lock calls
  have hdepth (lock : LockId) := lookup_ledger hs lock
  refine ⟨fun lock => ?_, fun lock h hheld => ?_, fun lock habsent => ?_⟩
  · rw [find?_eq_map hb.sound, hb.ledger, find?_eq_map hs, (hon lock).2]
    cases hl : (Directory.ledger s.directory).lookup lock with
    | none =>
      obtain ⟨-, -, -, hend⟩ := Ledger.watch_balanced_absent (hcalls lock) (hbalanced lock) hl
      rw [hend]
    | some n =>
      rw [(Ledger.watch_balanced_held (hcalls lock) (hbalanced lock) (depth_pos hs hl) hl).2]
  · have hl := hdepth lock
    rw [hheld] at hl
    rw [hseen, (hon lock).1]
    exact (Ledger.watch_balanced_held (hcalls lock) (hbalanced lock) (depth_pos hs hl) hl).1
  · have hl := hdepth lock
    rw [habsent] at hl
    obtain ⟨stretches, hsplit, hreal, -⟩ :=
      Ledger.watch_balanced_absent (hcalls lock) (hbalanced lock) hl
    exact ⟨stretches, hsplit, by rw [hseen, (hon lock).1, hreal]⟩

/-- **Balanced nesting pays for one pair of real calls per stretch.** Whatever is recorded at the
start, in a slot table of any length or in a pooled directory, and however the calls on different
locks are mixed: if they are balanced on each lock and none is refused, then everything is recorded
as before, a lock recorded from the start comes to no real call, and any other lock to one acquire
and one release in each stretch in which it is held. -/
theorem balanced_nesting_pays_once (real : Real W) (world : W) (calls : List (Side × Call))
    (hmode : ∀ x ∈ calls, x.2.mode = .reentrant)
    (hbalanced : ∀ lock, Balanced (callsOn lock calls)) :
    (∀ n (table : SlotTable n), table.Sound →
      Unrefused ((⟨table, world⟩ : Shield (SlotTable n) W).watch real calls).1 →
      PaysOnce real (⟨table, world⟩ : Shield (SlotTable n) W) calls) ∧
    ∀ pool : PooledDirectory, pool.Sound →
      PaysOnce real (⟨pool, world⟩ : Shield PooledDirectory W) calls := by
  refine ⟨fun n table hs hacc => ?_, fun pool hs => ?_⟩
  · exact pays_once hs hmode hbalanced hacc
  · exact pays_once hs hmode hbalanced (unrefused_pool hs calls)

/-- Locks 1 and 2 cross, and lock 1 is held twice; lock 3 is recorded from the start. -/
theorem balanced_nesting_pays_once_crossing :
    let real : Real Unit := fun _ _ w => w
    let table : SlotTable 3 := ⟨⟨#[⟨⟨3⟩, 2⟩, Holding.vacant, Holding.vacant], rfl⟩, 1⟩
    let acquire (n : UInt64) : Side × Call := (.lock, ⟨⟨n⟩, .reentrant, []⟩)
    let release (n : UInt64) : Side × Call := (.unlock, ⟨⟨n⟩, .reentrant, []⟩)
    let calls := [acquire 1, acquire 2, acquire 3, acquire 2, release 1, release 2, acquire 1,
      release 3, release 2, acquire 1, release 1, release 1]
    table.Sound ∧ (∀ lock, Balanced (callsOn lock calls)) ∧
      Unrefused ((⟨table, ()⟩ : Shield (SlotTable 3) Unit).watch real calls).1 ∧
      PaysOnce real (⟨table, ()⟩ : Shield (SlotTable 3) Unit) calls := by
  intro real table acquire release calls
  have hmode : ∀ x ∈ calls, x.2.mode = .reentrant := by decide
  have hbalanced : ∀ lock, Balanced (callsOn lock calls) := by
    intro lock
    by_cases hused : lock ∈ calls.map (·.2.lock)
    · revert lock
      decide +kernel
    · have hunused : callsOn lock calls = [] :=
        List.filter_eq_nil_iff.mpr fun x hx hlock =>
          hused (List.mem_map.mpr ⟨x, hx, of_decide_eq_true hlock⟩)
      rw [hunused]
      decide
  have hsound : table.Sound ∧ table.holdings = [⟨⟨3⟩, 2⟩] :=
    SlotTable.sound_of_slots rfl rfl (List.nodup_singleton _) (by decide)
  have hacc : Unrefused ((⟨table, ()⟩ : Shield (SlotTable 3) Unit).watch real calls).1 := by
    unfold Unrefused
    decide +kernel
  exact ⟨hsound.1, hbalanced, hacc,
    (balanced_nesting_pays_once real () calls hmode hbalanced).1 3 table hsound.1 hacc⟩

end Shield

end LockElision
