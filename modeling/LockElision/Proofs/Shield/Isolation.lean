import LockElision.Proofs.Shield.Sighting

/-!
# Locks do not interfere

What is seen of the calls on some locks is what would be seen if there were no others. In a run of
some of the calls the directory has another layout, and fewer locks; all that matters is that it has
the locks in question equally deep, and no more locks than before where room is short
(`Ledger.Narrows`). That two calls on different locks may change places (`observe_comm`) rests on
the same facts about a single call.
-/

namespace LockElision

section Parts

variable (S : Set LockId) [DecidablePred (· ∈ S)]

/-- The calls on locks in `S`. -/
def callsIn (calls : List (Side × Call)) : List (Side × Call) := calls.filter (·.2.lock ∈ S)

/-- What is seen of the calls on locks in `S`. -/
def seenIn (seen : List Sighting) : List Sighting := seen.filter (·.call.lock ∈ S)

variable {S} {side : Side} {c : Call} {calls : List (Side × Call)} {x : Sighting}
  {seen : List Sighting}

theorem callsIn_of_mem (h : c.lock ∈ S) :
    callsIn S ((side, c) :: calls) = (side, c) :: callsIn S calls :=
  List.filter_cons_of_pos (decide_eq_true h)

theorem callsIn_of_notMem (h : c.lock ∉ S) : callsIn S ((side, c) :: calls) = callsIn S calls :=
  List.filter_cons_of_neg (by simpa using h)

theorem seenIn_of_mem (h : x.call.lock ∈ S) : seenIn S (x :: seen) = x :: seenIn S seen :=
  List.filter_cons_of_pos (decide_eq_true h)

theorem seenIn_of_notMem (h : x.call.lock ∉ S) : seenIn S (x :: seen) = seenIn S seen :=
  List.filter_cons_of_neg (by simpa using h)

end Parts

namespace Ledger

variable {capacity : Option Nat} {S : Set LockId} {m m' : Ledger} {side : Side} {c : Call}

/-- `m'` has the locks of `S` as `m` does, and no others if there is a bound. -/
structure Narrows (capacity : Option Nat) (S : Set LockId) (m m' : Ledger) : Prop where
  agree : ∀ lock ∈ S, m'.lookup lock = m.lookup lock
  spare : capacity = none ∨ ∀ lock ∉ S, m'.lookup lock = none

theorem Narrows.hasRoom (h : Narrows capacity S m m') (hroom : m.hasRoom capacity = true) :
    m'.hasRoom capacity = true := by
  rcases h.spare with rfl | hspare
  · rfl
  · have hkeys : m'.keys ⊆ m.keys := by
      intro lock hlock
      rw [Finmap.mem_keys, ← Finmap.lookup_isSome] at hlock ⊢
      by_cases hm : lock ∈ S
      · rwa [h.agree lock hm] at hlock
      · rw [hspare lock hm] at hlock; cases hlock
    have hsize : m'.size ≤ m.size := Finset.card_le_card hkeys
    cases capacity with
    | none => rfl
    | some n =>
      have hroom : m.size < n := of_decide_eq_true hroom
      exact decide_eq_true (Nat.lt_of_le_of_lt hsize hroom)

theorem Narrows.accepted (h : Narrows capacity S m m') (hc : c.lock ∈ S)
    (hacc : (m.observe capacity side c).1.refused = false) :
    (m'.observe capacity side c).1.refused = false := by
  rw [← Bool.not_eq_true, refused_iff] at hacc ⊢
  rintro ⟨hside, habsent, hfull⟩
  refine hacc ⟨hside, (h.agree _ hc).symm.trans habsent, ?_⟩
  cases hroom : m.hasRoom capacity with
  | false => rfl
  | true => rw [h.hasRoom hroom] at hfull; cases hfull

theorem Narrows.inside (h : Narrows capacity S m m') (hc : c.lock ∈ S)
    (hacc : (m.observe capacity side c).1.refused = false) :
    (m'.observe capacity side c).1 = (m.observe capacity side c).1 ∧
      Narrows capacity S (m.observe capacity side c).2 (m'.observe capacity side c).2 := by
  have hseen : (m'.observe capacity side c).1 = (m.observe capacity side c).1 := by
    rw [observe_of_accepted hacc, observe_of_accepted (h.accepted hc hacc)]
    exact observe_congr (h.agree _ hc)
  refine ⟨hseen, fun lock hm => ?_, h.spare.imp_right fun hspare lock hm => ?_⟩
  · by_cases he : lock = c.lock
    · rw [he, lookup_observe_self, lookup_observe_self, hseen]
    · rw [lookup_observe_ne he, lookup_observe_ne he, h.agree lock hm]
  · have hne : lock ≠ c.lock := fun he => hm (he ▸ hc)
    rw [lookup_observe_ne hne, hspare lock hm]

theorem Narrows.outside (h : Narrows capacity S m m') (hc : c.lock ∉ S) (side : Side) :
    Narrows capacity S (m.observe capacity side c).2 m' := by
  refine ⟨fun lock hm => ?_, h.spare⟩
  rw [lookup_observe_ne fun he => hc (he ▸ hm), h.agree lock hm]

/-- **A run of calls**, seen in part, is the run of a part of the calls. -/
theorem Narrows.watch [DecidablePred (· ∈ S)] (calls : List (Side × Call)) :
    ∀ {m m' : Ledger}, Narrows capacity S m m' → Unrefused (m.watch capacity calls).1 →
      seenIn S (m.watch capacity calls).1 = (m'.watch capacity (callsIn S calls)).1 ∧
        Narrows capacity S (m.watch capacity calls).2
          (m'.watch capacity (callsIn S calls)).2 := by
  induction calls with
  | nil => exact fun h _ => ⟨rfl, h⟩
  | cons first calls ih =>
    intro m m' h hacc
    obtain ⟨side, c⟩ := first
    rw [watch_cons, unrefused_cons] at hacc
    rw [watch_cons]
    by_cases hc : c.lock ∈ S
    · obtain ⟨hseen, hstep⟩ := h.inside hc hacc.1
      obtain ⟨hrest, hend⟩ := ih hstep hacc.2
      rw [callsIn_of_mem hc, watch_cons, seenIn_of_mem hc, hrest, hseen]
      exact ⟨rfl, hend⟩
    · obtain ⟨hrest, hend⟩ := ih (h.outside hc side) hacc.2
      rw [callsIn_of_notMem hc, seenIn_of_notMem hc]
      exact ⟨hrest, hend⟩

/-- Nothing is missing from the whole map, nor from the empty one. -/
theorem narrows_self (S : Set LockId) (m : Ledger) : Narrows none S m m :=
  ⟨fun _ _ => rfl, .inl rfl⟩

theorem narrows_empty (capacity : Option Nat) (S : Set LockId) : Narrows capacity S ∅ ∅ :=
  ⟨fun _ _ => rfl, .inr fun _ _ => Finmap.lookup_empty _⟩

/-! ## Two calls in either order -/

theorem observe_comm (side side' : Side) {c c' : Call} (hne : c.lock ≠ c'.lock) (m : Ledger) :
    ((m.observe none side c).2.observe none side' c').1 = (m.observe none side' c').1 ∧
      ((m.observe none side' c').2.observe none side c).1 = (m.observe none side c).1 ∧
      ((m.observe none side c).2.observe none side' c').2 =
        ((m.observe none side' c').2.observe none side c).2 := by
  have hseen' : ((m.observe none side c).2.observe none side' c').1 = (m.observe none side' c').1 :=
    observe_congr (lookup_observe_ne hne.symm)
  have hseen : ((m.observe none side' c').2.observe none side c).1 = (m.observe none side c).1 :=
    observe_congr (lookup_observe_ne hne)
  refine ⟨hseen', hseen, Finmap.ext_lookup fun lock => ?_⟩
  by_cases he : lock = c.lock
  · subst he
    rw [lookup_observe_self, hseen, lookup_observe_ne hne, lookup_observe_self]
  · by_cases he' : lock = c'.lock
    · subst he'
      rw [lookup_observe_self, hseen', lookup_observe_ne hne.symm, lookup_observe_self]
    · rw [lookup_observe_ne he', lookup_observe_ne he, lookup_observe_ne he, lookup_observe_ne he']

theorem watch_comm {a b : Side × Call} (hne : a.2.lock ≠ b.2.lock) (m : Ledger) :
    ∃ x y, (m.watch none [a, b]).1 = [x, y] ∧ (m.watch none [b, a]).1 = [y, x] ∧
      (m.watch none [a, b]).2 = (m.watch none [b, a]).2 := by
  obtain ⟨hb, ha, hend⟩ := m.observe_comm a.1 b.1 hne
  exact ⟨_, _, congrArg (fun y => [(m.observe none a.1 a.2).1, y]) hb,
    congrArg (fun x => [(m.observe none b.1 b.2).1, x]) ha, hend⟩

end Ledger

theorem Holding.entry_injective : Function.Injective Holding.entry := by
  rintro ⟨lock, depth⟩ ⟨lock', depth'⟩ h
  obtain ⟨hlock, hdepth⟩ := Sigma.mk.inj h
  exact congrArg₂ Holding.mk hlock (eq_of_heq hdepth)

namespace Shield

open LawfulDirectory

variable {D W : Type} [Directory D] {real : Real W} {s : Shield D W} {S : Set LockId}

/-- The calls on locks in `S` are seen alike if there are no others, and these locks are recorded
alike in the end. -/
structure Isolated (real : Real W) (s : Shield D W) (S : Set LockId) [DecidablePred (· ∈ S)]
    (calls : List (Side × Call)) : Prop where
  seen : seenIn S (s.watch real calls).1 = (s.watch real (callsIn S calls)).1
  records : ∀ lock ∈ S, Directory.find? (s.watch real (callsIn S calls)).2.directory lock =
    Directory.find? (s.watch real calls).2.directory lock

/-- Two calls may change places: each is seen alike, the same locks are then recorded, and so is
everything that follows. -/
structure Commute (real : Real W) (s : Shield D W) (a b : Side × Call) : Prop where
  seen : ∃ x y, (s.watch real [a, b]).1 = [x, y] ∧ (s.watch real [b, a]).1 = [y, x]
  records : (Directory.holdings (s.watch real [a, b]).2.directory).Perm
    (Directory.holdings (s.watch real [b, a]).2.directory)
  later : ∀ calls, ((s.watch real [a, b]).2.watch real calls).1 =
    ((s.watch real [b, a]).2.watch real calls).1

variable [LawfulDirectory D]

theorem isolated [DecidablePred (· ∈ S)] (hs : Sound s.directory)
    (hempty : Directory.ledger s.directory = ∅) (calls : List (Side × Call))
    (hacc : Unrefused (s.watch real calls).1) : Isolated real s S calls := by
  obtain ⟨hseen, hb, -⟩ := watch_law real calls s hs
  obtain ⟨hpart, hb', -⟩ := watch_law real (callsIn S calls) s hs
  rw [hseen] at hacc
  rw [hempty] at hseen hb hpart hb' hacc
  obtain ⟨hsame, hend⟩ := (Ledger.narrows_empty _ S).watch calls hacc
  refine ⟨by rw [hseen, hpart, hsame], fun lock hm => ?_⟩
  rw [find?_eq_map hb.sound, find?_eq_map hb'.sound, hb.ledger, hb'.ledger, hend.agree lock hm]

theorem holdings_perm {d d' : D} (hd : Sound d) (hd' : Sound d')
    (h : Directory.ledger d = Directory.ledger d') :
    (Directory.holdings d).Perm (Directory.holdings d') := by
  have hentries := entries_ledger hd
  rw [h, entries_ledger hd'] at hentries
  exact (List.map_perm_map_iff Holding.entry_injective).mp (Multiset.coe_eq_coe.mp hentries).symm

theorem commute (hs : Sound s.directory) {a b : Side × Call} (hne : a.2.lock ≠ b.2.lock)
    (hab : Unrefused (s.watch real [a, b]).1) (hba : Unrefused (s.watch real [b, a]).1) :
    Commute real s a b := by
  obtain ⟨hseen, hafter, -⟩ := watch_law real [a, b] s hs
  obtain ⟨hseen', hafter', -⟩ := watch_law real [b, a] s hs
  rw [hseen] at hab
  rw [hseen'] at hba
  rw [Ledger.watch_of_unrefused _ _ hab] at hseen hafter
  rw [Ledger.watch_of_unrefused _ _ hba] at hseen' hafter'
  obtain ⟨x, y, hxy, hyx, hend⟩ := (Directory.ledger s.directory).watch_comm hne
  have hledger : Directory.ledger (s.watch real [a, b]).2.directory =
      Directory.ledger (s.watch real [b, a]).2.directory :=
    hafter.ledger.trans (hend.trans hafter'.ledger.symm)
  refine ⟨⟨x, y, hseen.trans hxy, hseen'.trans hyx⟩,
    holdings_perm hafter.sound hafter'.sound hledger, fun calls => ?_⟩
  rw [(watch_law real calls _ hafter.sound).1, (watch_law real calls _ hafter'.sound).1, hledger,
    hafter.capacity, hafter'.capacity]

theorem unrefused_pool {s : Shield PooledDirectory W} (hs : s.directory.Sound)
    (calls : List (Side × Call)) : Unrefused (s.watch real calls).1 := by
  rw [(watch_law real calls s hs).1]
  exact Ledger.unrefused_of_unbounded calls _

/-- **Locks do not interfere.** Whatever locks `S` are looked at, what is seen of the calls on them
is what would be seen if all other calls were left out: in any run over a pooled directory, and in a
run over a slot table that never finds it full. And two calls on different locks may change places
in such a run, for a slot table if it is not full in either order. -/
theorem locks_do_not_interfere (real : Real W) (world : W) (S : Set LockId)
    [DecidablePred (· ∈ S)] (calls : List (Side × Call)) :
    let table (n : Nat) : Shield (SlotTable n) W := ⟨SlotTable.empty n, world⟩
    let pool (hash : LockId → UInt64) (poolSize buckets : Nat) : Shield PooledDirectory W :=
      ⟨PooledDirectory.create hash poolSize buckets, world⟩
    (∀ hash poolSize buckets, Isolated real (pool hash poolSize buckets) S calls) ∧
    (∀ n, Unrefused ((table n).watch real calls).1 → Isolated real (table n) S calls) ∧
    ∀ a b : Side × Call, a.2.lock ≠ b.2.lock →
      (∀ hash poolSize buckets,
        Commute real ((pool hash poolSize buckets).watch real calls).2 a b) ∧
      ∀ n, let s := ((table n).watch real calls).2
        Unrefused (s.watch real [a, b]).1 → Unrefused (s.watch real [b, a]).1 →
          Commute real s a b := by
  intro table pool
  refine ⟨fun hash poolSize buckets => ?_, fun n hacc => ?_, fun a b hne =>
    ⟨fun hash poolSize buckets => ?_, fun n => ?_⟩⟩
  · exact isolated (PooledDirectory.sound_create ..).1 (PooledDirectory.ledger_create ..) calls
      (unrefused_pool (PooledDirectory.sound_create ..).1 calls)
  · exact isolated (SlotTable.sound_empty n).1 (SlotTable.ledger_empty n) calls hacc
  · obtain ⟨-, hb, -⟩ := watch_pool real world hash poolSize buckets calls
    exact commute hb.sound hne (unrefused_pool hb.sound _) (unrefused_pool hb.sound _)
  · obtain ⟨-, hb, -⟩ := watch_table real world n calls
    exact commute hb.sound hne

/-- A lock that is moved to another slot when the one before it goes. -/
theorem locks_do_not_interfere_moved :
    let real : Real Unit := fun _ _ w => w
    let s : Shield (SlotTable 2) Unit := ⟨SlotTable.empty 2, ()⟩
    let calls : List (Side × Call) :=
      [(.lock, ⟨⟨2⟩, .strict, []⟩), (.lock, ⟨⟨1⟩, .reentrant, [7]⟩), (.unlock, ⟨⟨2⟩, .strict, []⟩),
        (.lock, ⟨⟨1⟩, .reentrant, []⟩)]
    let after := (s.watch real calls).2
    let a : Side × Call := (.unlock, ⟨⟨1⟩, .strict, []⟩)
    let b : Side × Call := (.lock, ⟨⟨3⟩, .reentrant, []⟩)
    Unrefused (s.watch real calls).1 ∧ after.directory.holdings = [⟨⟨1⟩, 2⟩] ∧
      Isolated real s {lock | lock = ⟨1⟩} calls ∧ Unrefused (after.watch real [a, b]).1 ∧
      Unrefused (after.watch real [b, a]).1 ∧ Commute real after a b := by
  intro real s calls after a b
  have hacc : Unrefused (s.watch real calls).1 := by
    unfold Unrefused
    decide +kernel
  have hab : Unrefused (after.watch real [a, b]).1 := by
    unfold Unrefused
    decide +kernel
  have hba : Unrefused (after.watch real [b, a]).1 := by
    unfold Unrefused
    decide +kernel
  obtain ⟨-, hisolated, hcommute⟩ :=
    locks_do_not_interfere real () {lock | lock = ⟨1⟩} calls
  exact ⟨hacc, by decide +kernel, hisolated 2 hacc, hab, hba,
    (hcommute a b (by decide)).2 2 hab hba⟩

end Shield

end LockElision
