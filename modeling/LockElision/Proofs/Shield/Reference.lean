import LockElision.Proofs.Directory.Pooled
import LockElision.Proofs.Directory.Slots
import LockElision.Proofs.Shield.Admission
import LockElision.Shield.Script

/-!
# Shields against a reference machine

The reference machine remembers nothing but a finite map: `Ledger.play` gives the status of every
call, the calls that reach a real operation, and the map at the end. A shield over a directory of
its own, in a world the real operations act on, does the same (`Shield.play_matches`).
-/

namespace LockElision

namespace CallStatus

def forwarded : CallStatus → Bool
  | acquired status => status.forwarded
  | released status => status.forwarded

/-- The real operations a call with this status came to: its own, or none. -/
def reached (status : CallStatus) (side : Side) (c : Call) : List (Side × Call) :=
  if status.forwarded then [(side, c)] else []

end CallStatus

namespace Ledger

/-- The status of a call and the map after it. -/
def call (capacity : Option Nat) (m : Ledger) (c : Call) : Side → CallStatus × Ledger
  | .lock => (.acquired (m.enter capacity c.lock c.mode).1, (m.enter capacity c.lock c.mode).2)
  | .unlock => (.released (m.withdraw c.lock c.mode).1, (m.withdraw c.lock c.mode).2)

/-- The statuses, the real operations in their order, and the map after all calls. -/
def play (capacity : Option Nat) (m : Ledger) :
    List (Side × Call) → List CallStatus × List (Side × Call) × Ledger
  | [] => ([], [], m)
  | (side, c) :: calls =>
    let (status, m) := m.call capacity c side
    let (statuses, reached, m) := m.play capacity calls
    (status :: statuses, status.reached side c ++ reached, m)

end Ledger

/-- A shield over a directory of its own, in a world that the real operations act on. -/
structure Shield (D W : Type) where
  directory : D
  world : W

namespace Shield

variable {D W : Type}

def scope : Scope (Shield D W) D where
  directory := Shield.directory
  book _ d s := { s with directory := d }

/-- What the real operations of all locks do to the world. They cannot reach the directory, and
they always come back. -/
abbrev Real (W : Type) := Side → Call → W → W

def Real.primitive (real : Real W) (side : Side) (c : Call) :
    Primitive (Shield D W) (List Reply) :=
  fun s => (([], none), { s with world := real side c s.world })

/-- The world after some calls that reached their real operations. -/
def Real.runAll (real : Real W) (world : W) (calls : List (Side × Call)) : W :=
  calls.foldl (fun world (side, c) => real side c world) world

variable [Directory D]

def call (real : Real W) (s : Shield D W) (c : Call) :
    Side → Except Panic CallStatus × Shield D W
  | .lock =>
    let (outcome, s) := acquire scope c (real.primitive .lock c) s
    ((outcome.ended .acquired).1, s)
  | .unlock =>
    let (outcome, s) := release scope c (real.primitive .unlock c) s
    ((outcome.ended .released).1, s)

def play (real : Real W) (s : Shield D W) :
    List (Side × Call) → List (Except Panic CallStatus) × Shield D W
  | [] => ([], s)
  | (side, c) :: calls =>
    let (ended, s) := s.call real c side
    let (endeds, s) := s.play real calls
    (ended :: endeds, s)

open LawfulDirectory

variable [LawfulDirectory D] {s : Shield D W}

/-- **One call.** The status is the reference's, the directory stands for the reference's map, and
the real operation ran exactly when the status says so. -/
theorem call_matches (hs : Sound s.directory) (real : Real W) (c : Call) (side : Side) :
    let m := Directory.ledger s.directory
    let capacity := Directory.capacity s.directory
    (s.call real c side).1 = .ok (m.call capacity c side).1 ∧
      Becomes Sound s.directory (s.call real c side).2.directory (m.call capacity c side).2 ∧
      (s.call real c side).2.world =
        real.runAll s.world ((m.call capacity c side).1.reached side c) := by
  intro m capacity
  cases side with
  | lock =>
    obtain ⟨hstatus, hb⟩ := admission_law hs c.lock c.mode
    simp only [Ledger.call]
    rw [← hstatus]
    simp only [call, acquire, scope]
    generalize admission s.directory c.lock c.mode = a at hb
    obtain ⟨status, d, notice⟩ := a
    cases status <;> exact ⟨rfl, hb, rfl⟩
  | unlock =>
    obtain ⟨hstatus, hb⟩ := withdrawal_law hs c.lock c.mode
    simp only [Ledger.call]
    rw [← hstatus]
    simp only [call, release, scope]
    generalize withdrawal s.directory c.lock c.mode = a at hb
    obtain ⟨status, d⟩ := a
    cases status <;> exact ⟨rfl, hb, rfl⟩

/-- A run agrees with the reference machine in all one can observe: every status, the real
operations and their order, how many locks are held, how deep each one is, and their listing. -/
structure Matches (real : Real W) (world : W)
    (run : List (Except Panic CallStatus) × Shield D W)
    (reference : List CallStatus × List (Side × Call) × Ledger) : Prop where
  statuses : run.1 = reference.1.map .ok
  world : run.2.world = real.runAll world reference.2.1
  heldCount : Directory.size run.2.directory = reference.2.2.size
  depth : ∀ lock,
    (Directory.find? run.2.directory lock).map Holding.depth = reference.2.2.lookup lock
  heldLocks : ↑((Directory.holdings run.2.directory).map Holding.entry) = reference.2.2.entries

theorem play_matches (real : Real W) (calls : List (Side × Call)) :
    ∀ s : Shield D W, Sound s.directory →
      Matches real s.world (s.play real calls)
        ((Directory.ledger s.directory).play (Directory.capacity s.directory) calls) := by
  induction calls with
  | nil =>
    exact fun s hs => ⟨rfl, rfl, size_ledger hs, fun lock => (lookup_ledger hs lock).symm,
      (entries_ledger hs).symm⟩
  | cons first calls ih =>
    intro s hs
    obtain ⟨side, c⟩ := first
    obtain ⟨hstatus, hb, hworld⟩ := call_matches hs real c side
    have h := ih _ hb.sound
    rw [hb.ledger, hb.capacity, hworld] at h
    refine ⟨?_, ?_, h.heldCount, h.depth, h.heldLocks⟩
    · show (s.call real c side).1 :: _ = _
      rw [hstatus]
      exact congrArg _ h.statuses
    · refine h.world.trans ?_
      rw [Ledger.play, Real.runAll, Real.runAll, Real.runAll, List.foldl_append]

/-- **A shield is the reference machine**, over a slot table of any length as over a pooled
directory of any hash, pool and number of buckets. Whatever the real operations do to the world,
the same calls get the same statuses, come to the same real operations in the same order, and leave
the same locks held equally deep. -/
theorem play_matches_reference (real : Real W) (world : W) (calls : List (Side × Call)) :
    (∀ n, Matches real world (play real ⟨SlotTable.empty n, world⟩ calls)
      (Ledger.play (some n) ∅ calls)) ∧
    ∀ hash poolSize buckets,
      Matches real world (play real ⟨PooledDirectory.create hash poolSize buckets, world⟩ calls)
        (Ledger.play none ∅ calls) := by
  constructor
  · intro n
    have h := play_matches real calls ⟨SlotTable.empty n, world⟩ (SlotTable.sound_empty n).1
    rwa [SlotTable.ledger_empty] at h
  · intro hash poolSize buckets
    have h := play_matches real calls ⟨PooledDirectory.create hash poolSize buckets, world⟩
      (PooledDirectory.sound_create ..).1
    rwa [PooledDirectory.ledger_create] at h

end Shield

end LockElision
