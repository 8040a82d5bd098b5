import LockElision.Proofs.Shield.Routine

/-!
# Real calls are conserved

A lock is recorded because its real lock was called, and stops being recorded because its real
unlock was called or because its record was undone. So these happenings, the turns of the lock,
alternate: `Tallied` says so of a desk, and every step of bookkeeping keeps it. With it a run has,
at every desk, one real lock more than turns back for a lock that is recorded, and as many for one
that is not (`Routine.run_conserves`).
-/

namespace LockElision

open Directory LawfulDirectory

/-! ## Turns -/

namespace Happening

/-- The real call on a lock that happened. -/
def call? (lock : LockId) : Happening → Option Side
  | called side c => if c.lock = lock then some side else none
  | booked _ => none

/-- A record of the lock was taken away because its real lock broke off. -/
def undoes (lock : LockId) : Happening → Bool
  | booked (.rollBack undone (some _)) => undone = lock
  | _ => false

/-- A turn of a lock, and whether it gets recorded by it. -/
def turn? (lock : LockId) (happening : Happening) : Option Bool :=
  if happening.undoes lock then some false else (happening.call? lock).map (· == .lock)

/-- What happens is a real call on a lock, or the end of its record, or does not concern it. -/
theorem turn_cases (lock : LockId) (happening : Happening) :
    (∃ side, happening.call? lock = some side ∧ happening.undoes lock = false ∧
      happening.turn? lock = some (side == .lock)) ∨
    (happening.call? lock = none ∧ happening.undoes lock = true ∧
      happening.turn? lock = some false) ∨
    (happening.call? lock = none ∧ happening.undoes lock = false ∧
      happening.turn? lock = none) := by
  unfold turn?
  cases hu : happening.undoes lock with
  | true =>
    have hc : happening.call? lock = none := by
      cases happening with
      | called side c => cases hu
      | booked booking => rfl
    exact .inr (.inl ⟨hc, rfl, rfl⟩)
  | false =>
    cases hc : happening.call? lock with
    | none => exact .inr (.inr ⟨rfl, rfl, rfl⟩)
    | some side => exact .inl ⟨side, rfl, rfl, rfl⟩

end Happening

/-- Turns, newest first, alternate from a lock that is not recorded to what it is now. -/
inductive Alternate : List Bool → Bool → Prop where
  | nil : Alternate [] false
  | cons {turns : List Bool} {held : Bool} :
      Alternate turns (!held) → Alternate (held :: turns) held

namespace Alternate

variable {turns : List Bool} {held : Bool}

theorem count_eq (h : Alternate turns held) :
    turns.count true = turns.count false + held.toNat := by
  induction h with
  | nil => rfl
  | @cons turns held h ih =>
    cases held with
    | true => rw [List.count_cons_self, List.count_cons_of_ne (by decide), ih]; rfl
    | false => rw [List.count_cons_self, List.count_cons_of_ne (by decide), ih]; rfl

theorem toNat_eq (h : Alternate turns held) : held.toNat = turns.length % 2 := by
  induction h with
  | nil => rfl
  | @cons turns held h ih =>
    rw [List.length_cons]
    cases held with
    | true =>
      have hlen : 0 = turns.length % 2 := ih
      show 1 = (turns.length + 1) % 2
      omega
    | false =>
      have hlen : 1 = turns.length % 2 := ih
      show 0 = (turns.length + 1) % 2
      omega

/-- Counted from the oldest one, every other turn gets the lock recorded. -/
theorem getElem?_reverse (h : Alternate turns held) {i : Nat} {turn : Bool}
    (hi : turns.reverse[i]? = some turn) : turn = true ↔ i % 2 = 0 := by
  induction h with
  | nil => cases hi
  | @cons turns held h ih =>
    rw [List.reverse_cons] at hi
    rcases Nat.lt_or_ge i turns.reverse.length with hlt | hge
    · rw [List.getElem?_append_left hlt] at hi
      exact ih hi
    · rw [List.getElem?_append_right hge] at hi
      have hlast : i - turns.reverse.length = 0 := by
        have hlt := (List.getElem?_eq_some_iff.mp hi).1
        exact Nat.lt_one_iff.mp hlt
      rw [hlast] at hi
      obtain rfl : held = turn := Option.some.inj hi
      have hparity := h.toNat_eq
      rw [List.length_reverse] at hge hlast
      cases held with
      | true =>
        have hlen : 0 = turns.length % 2 := hparity
        exact ⟨fun _ => by omega, fun _ => rfl⟩
      | false =>
        have hlen : 1 = turns.length % 2 := hparity
        exact ⟨fun h => (nomatch h), fun h => by omega⟩

end Alternate

namespace Desk

variable {D : Type}

/-- The turns of a lock, newest first. -/
def turns (desk : Desk D) (lock : LockId) : List Bool :=
  desk.journal.filterMap (Happening.turn? lock)

/-- How often a record of the lock was taken away because its real lock broke off. -/
def undone (desk : Desk D) (lock : LockId) : Nat := desk.journal.countP (Happening.undoes lock)

theorem turns_note_self (desk : Desk D) (side : Side) (c : Call) :
    (desk.note side c).turns c.lock = (side == .lock) :: desk.turns c.lock := by
  have hturn : Happening.turn? c.lock (.called side c) = some (side == .lock) := by
    show Option.map _ (if c.lock = c.lock then some side else none) = _
    rw [if_pos rfl]
    rfl
  exact List.filterMap_cons_some hturn

theorem turns_note_ne (desk : Desk D) (side : Side) {c : Call} {lock : LockId}
    (h : lock ≠ c.lock) : (desk.note side c).turns lock = desk.turns lock := by
  have hturn : Happening.turn? lock (.called side c) = none := by
    show Option.map _ (if c.lock = lock then some side else none) = _
    rw [if_neg h.symm]
    rfl
  exact List.filterMap_cons_none hturn

theorem callsOn_eq (desk : Desk D) (lock : LockId) :
    desk.callsOn lock = desk.journal.filterMap (Happening.call? lock) := rfl

theorem count_turns (desk : Desk D) (lock : LockId) :
    (desk.turns lock).count true = (desk.callsOn lock).count .lock ∧
      (desk.turns lock).count false = (desk.callsOn lock).count .unlock + desk.undone lock := by
  rw [callsOn_eq, turns, undone]
  induction desk.journal with
  | nil => exact ⟨rfl, rfl⟩
  | cons happening journal ih =>
    obtain ⟨hlock, hunlock⟩ := ih
    rcases happening.turn_cases lock with ⟨side, hc, hu, ht⟩ | ⟨hc, hu, ht⟩ | ⟨hc, hu, ht⟩
    · cases side with
      | lock => simp [hc, hu, ht, hlock, hunlock]
      | unlock =>
        have ht : happening.turn? lock = some false := ht
        simp [hc, hu, ht, hlock, hunlock]
        omega
    · simp [hc, hu, ht, hlock, hunlock]; omega
    · simp [hc, hu, ht, hlock, hunlock]

theorem turns_eq_calls (desk : Desk D) (lock : LockId) (h : desk.undone lock = 0) :
    desk.turns lock = (desk.callsOn lock).map (· == .lock) := by
  rw [callsOn_eq, turns]
  unfold undone at h
  generalize desk.journal = journal at h ⊢
  induction journal with
  | nil => rfl
  | cons happening journal ih =>
    rw [List.countP_cons] at h
    rcases happening.turn_cases lock with ⟨side, hc, hu, ht⟩ | ⟨hc, hu, ht⟩ | ⟨hc, hu, ht⟩
    · rw [hu] at h
      rw [List.filterMap_cons_some ht, List.filterMap_cons_some hc, List.map_cons, ih h]
    · rw [hu] at h
      cases h
    · rw [hu] at h
      rw [List.filterMap_cons_none ht, List.filterMap_cons_none hc, ih h]

theorem turns_settle [Directory D] (desk : Desk D) (side : Side) (c : Call) (lock : LockId) :
    (scope.settle side c desk).2.turns lock = desk.turns lock := by
  cases side <;> rfl

theorem turns_undo [Directory D] (desk : Desk D) (c : Call) (lock : LockId) :
    (scope.undo .lock c desk).turns lock =
      if (rollBack desk.directory c.lock).1.isSome ∧ c.lock = lock then false :: desk.turns lock
      else desk.turns lock := by
  show List.filterMap _
    (Happening.booked (.rollBack c.lock (rollBack desk.directory c.lock).1) :: _) = _
  cases (rollBack desk.directory c.lock).1 with
  | none => rfl
  | some h =>
    by_cases hl : c.lock = lock
    · rw [if_pos ⟨rfl, hl⟩]
      refine List.filterMap_cons_some ?_
      unfold Happening.turn? Happening.undoes
      rw [if_pos (decide_eq_true hl)]
    · rw [if_neg fun h => hl h.2]
      refine List.filterMap_cons_none ?_
      unfold Happening.turn? Happening.undoes
      rw [if_neg (by simpa using hl)]
      rfl

end Desk

/-! ## What a call does to the map -/

namespace Ledger

variable {capacity : Option Nat} {m m' : Ledger} {side : Side} {c : Call}

/-- One lock is recorded anew or no longer, and nothing else changes. -/
structure Turned (m m' : Ledger) (lock : LockId) (held : Bool) : Prop where
  before : (m.lookup lock).isSome = !held
  after : (m'.lookup lock).isSome = held
  other : ∀ other, other ≠ lock → (m'.lookup other).isSome = (m.lookup other).isSome

theorem enter_elided {lock : LockId} {mode : Reentrancy}
    (h : (m.enter capacity lock mode).1.forwarded = false) (other : LockId) :
    ((m.enter capacity lock mode).2.lookup other).isSome = (m.lookup other).isSome := by
  by_cases he : other = lock
  · subst he
    cases hl : m.lookup other with
    | none =>
      rw [enter_of_absent hl] at h ⊢
      cases hr : m.hasRoom capacity with
      | true => rw [hr] at h; cases h
      | false => rw [← hl]; rfl
    | some n =>
      cases mode with
      | reentrant => rw [enter_reentrant hl, Finmap.lookup_insert]; rfl
      | strict => rw [enter_strict hl, hl]
  · rw [lookup_enter_ne he]

theorem enter_forwarded {lock : LockId} {mode : Reentrancy}
    (h : (m.enter capacity lock mode).1.forwarded = true) :
    m.Turned (m.enter capacity lock mode).2 lock true := by
  cases hl : m.lookup lock with
  | none =>
    refine ⟨by rw [hl]; rfl, ?_, fun other hne => by rw [lookup_enter_ne hne]⟩
    rw [enter_of_absent hl] at h ⊢
    cases hr : m.hasRoom capacity with
    | true => exact congrArg Option.isSome (Finmap.lookup_insert m)
    | false => rw [hr] at h; cases h
  | some n =>
    cases mode with
    | reentrant => rw [enter_reentrant hl] at h; cases h
    | strict => rw [enter_strict hl] at h; cases h

theorem erase_turned {lock : LockId} {n : Nat} (h : m.lookup lock = some n) :
    m.Turned (m.erase lock) lock false := by
  refine ⟨by rw [h]; rfl, ?_, fun other hne => ?_⟩
  · rw [Finmap.lookup_erase]; rfl
  · rw [Finmap.lookup_erase_ne hne]

theorem withdraw_elided {lock : LockId} {mode : Reentrancy}
    (h : (m.withdraw lock mode).1.forwarded = false) (other : LockId) :
    ((m.withdraw lock mode).2.lookup other).isSome = (m.lookup other).isSome := by
  by_cases he : other = lock
  · subst he
    cases hl : m.lookup other with
    | none => rw [withdraw_of_absent hl, hl]
    | some n =>
      cases mode with
      | reentrant =>
        rw [withdraw_reentrant hl] at h ⊢
        by_cases hn : 1 < n
        · rw [if_pos hn, Finmap.lookup_insert]; rfl
        · rw [if_neg hn] at h; cases h
      | strict => rw [withdraw_strict hl] at h; cases h
  · rw [lookup_withdraw_ne he]

theorem withdraw_forwarded {lock : LockId} {mode : Reentrancy}
    (h : (m.withdraw lock mode).1.forwarded = true) :
    m.Turned (m.withdraw lock mode).2 lock false := by
  cases hl : m.lookup lock with
  | none => rw [withdraw_of_absent hl] at h; cases h
  | some n =>
    cases mode with
    | reentrant =>
      rw [withdraw_reentrant hl] at h ⊢
      by_cases hn : 1 < n
      · rw [if_pos hn] at h; cases h
      · rw [if_neg hn]; exact erase_turned hl
    | strict => rw [withdraw_strict hl]; exact erase_turned hl

theorem call_elided (h : (m.call capacity c side).1.forwarded = false) (lock : LockId) :
    ((m.call capacity c side).2.lookup lock).isSome = (m.lookup lock).isSome := by
  cases side with
  | lock => exact enter_elided h lock
  | unlock => exact withdraw_elided h lock

theorem call_forwarded (h : (m.call capacity c side).1.forwarded = true) :
    m.Turned (m.call capacity c side).2 c.lock (side == .lock) := by
  cases side with
  | lock => exact enter_forwarded h
  | unlock => exact withdraw_forwarded h

end Ledger

/-! ## Every step keeps the turns alternating -/

namespace Desk

variable {D : Type} [Directory D] {desk desk' : Desk D}

/-- The turns of every lock alternate, up to whether it is recorded. -/
def Tallied (desk : Desk D) : Prop :=
  ∀ lock, Alternate (desk.turns lock) (contains desk.directory lock)

/-- As many turns got a lock recorded as took it away, and one more while it is recorded. -/
theorem Tallied.balance (h : desk.Tallied) (lock : LockId) :
    ((desk.callsOn lock).count .lock : ℤ) - (desk.callsOn lock).count .unlock - desk.undone lock =
      if contains desk.directory lock then 1 else 0 := by
  obtain ⟨hlock, hunlock⟩ := desk.count_turns lock
  have hcount := (h lock).count_eq
  rw [hlock, hunlock] at hcount
  cases hc : contains desk.directory lock with
  | true =>
    have hcount : (desk.callsOn lock).count .lock =
        (desk.callsOn lock).count .unlock + desk.undone lock + 1 := by rw [hcount, hc]; rfl
    rw [if_pos rfl]
    omega
  | false =>
    have hcount : (desk.callsOn lock).count .lock =
        (desk.callsOn lock).count .unlock + desk.undone lock := by rw [hcount, hc]; rfl
    rw [if_neg Bool.false_ne_true]
    omega

theorem Tallied.alternate (h : desk.Tallied) {lock : LockId} (hundone : desk.undone lock = 0)
    {i : Nat} {side : Side} (hi : (desk.callsOn lock).reverse[i]? = some side) :
    side = .lock ↔ i % 2 = 0 := by
  have hturn : (desk.turns lock).reverse[i]? = some (side == .lock) := by
    rw [turns_eq_calls desk lock hundone, ← List.map_reverse, List.getElem?_map, hi]
    rfl
  rw [← (h lock).getElem?_reverse hturn, beq_iff_eq]

theorem Tallied.same (h : desk.Tallied) (hturns : ∀ lock, desk'.turns lock = desk.turns lock)
    (hheld : ∀ lock, contains desk'.directory lock = contains desk.directory lock) :
    desk'.Tallied := by
  intro lock
  rw [hturns, hheld]
  exact h lock

variable [LawfulDirectory D]

theorem Tallied.turn {m : Ledger} {lock : LockId} {held : Bool} (h : desk.Tallied)
    (hd : Sound desk.directory) (hb : Becomes Sound desk.directory desk'.directory m)
    (hm : (ledger desk.directory).Turned m lock held)
    (hturns : desk'.turns lock = held :: desk.turns lock)
    (hother : ∀ other, other ≠ lock → desk'.turns other = desk.turns other) : desk'.Tallied := by
  intro other
  have hbefore := h other
  rw [contains_eq hd] at hbefore
  rw [contains_eq hb.sound, hb.ledger]
  by_cases he : other = lock
  · subst he
    rw [hturns, hm.after]
    rw [hm.before] at hbefore
    exact .cons hbefore
  · rw [hother other he, hm.other other he]
    exact hbefore

theorem Tallied.elided (h : desk.Tallied) (hd : Sound desk.directory) {side : Side} {c : Call}
    (hf : (scope.settle side c desk).1.forwarded = false) :
    (scope.settle side c desk).2.Tallied := by
  obtain ⟨hstatus, hb⟩ := settle_law hd side c
  rw [hstatus] at hf
  refine h.same (turns_settle desk side c) fun lock => ?_
  rw [contains_eq hb.sound, contains_eq hd, hb.ledger]
  exact Ledger.call_elided hf lock

theorem Tallied.reached (h : desk.Tallied) (hd : Sound desk.directory) {side : Side} {c : Call}
    (hf : (scope.settle side c desk).1.forwarded = true) :
    ((scope.settle side c desk).2.note side c).Tallied := by
  obtain ⟨hstatus, hb⟩ := settle_law hd side c
  rw [hstatus] at hf
  refine h.turn hd hb (Ledger.call_forwarded hf) ?_ fun other hne => ?_
  · rw [turns_note_self, turns_settle]
  · rw [turns_note_ne _ _ hne, turns_settle]

theorem Tallied.undone (h : desk.Tallied) (hd : Sound desk.directory) (side : Side) (c : Call) :
    (scope.undo side c desk).Tallied := by
  cases side with
  | unlock => exact h
  | lock =>
    obtain ⟨hremoved, hb⟩ := rollBack_law hd c.lock
    cases hl : (ledger desk.directory).lookup c.lock with
    | some n =>
      have hsome : (rollBack desk.directory c.lock).1.isSome := by rw [hremoved, hl]; rfl
      refine h.turn hd hb (Ledger.erase_turned hl) ?_ fun other hne => ?_
      · rw [turns_undo, if_pos ⟨hsome, rfl⟩]
      · rw [turns_undo, if_neg fun h => hne h.2.symm]
    | none =>
      have hnone : ¬ (rollBack desk.directory c.lock).1.isSome := by
        rw [hremoved, hl]
        exact Bool.false_ne_true
      refine h.same (fun lock => ?_) fun lock => ?_
      · rw [turns_undo, if_neg fun h => hnone h.1]
      · show contains (rollBack desk.directory c.lock).2 lock = _
        rw [contains_eq hb.sound, contains_eq hd, hb.ledger]
        by_cases he : lock = c.lock
        · rw [he, Finmap.lookup_erase, hl]
        · rw [Finmap.lookup_erase_ne he]

theorem tallied_start {d : D} (hd : Sound d) (hempty : ledger d = ∅) : (start d).Tallied := by
  intro lock
  show Alternate [] (contains d lock)
  rw [contains_eq hd, hempty]
  exact .nil

end Desk

/-! ## Runs -/

namespace Routine

variable {D : Type} [Directory D]

/-- In its run from here, no real operation that is called breaks off. -/
def Unbroken : Routine → Chronicle D → Prop
  | done panic, _ => panic = none
  | call side c real next, story =>
    let settled := Chronicle.scope.settle side c story
    let after := Chronicle.scope.call side c (real.operation side c) story
    (settled.1.forwarded = true → real.Unbroken (settled.2.note side c)) ∧
      (next after.1.1).Unbroken after.2

/-- How the real calls of a routine that starts with the directory `d` go. -/
structure Conserved (routine : Routine) (d : D) : Prop where
  /-- Between any two steps of bookkeeping the real calls of a lock to lock it, less those to unlock
  it and less the records that were undone, are 1 if it is recorded and 0 if it is not. -/
  balance : ∀ desk ∈ (routine.run (.start d)).2.desks, ∀ lock,
    ((desk.callsOn lock).count .lock : ℤ) - (desk.callsOn lock).count .unlock - desk.undone lock =
      if contains desk.directory lock then 1 else 0
  /-- If nothing breaks off, a lock is really locked and unlocked by turns. -/
  alternate : routine.Unbroken (.start d) → ∀ lock i side,
    ((routine.run (.start d)).2.now.callsOn lock).reverse[i]? = some side →
      (side = .lock ↔ i % 2 = 0)

theorem undone_of_unbroken (lock : LockId) (routine : Routine) : ∀ story : Chronicle D,
    routine.Unbroken story → (routine.run story).1 = none ∧
      (routine.run story).2.now.undone lock = story.now.undone lock := by
  induction routine with
  | done panic => exact fun story h => ⟨h, rfl⟩
  | call side c real next ihreal ihnext =>
    intro story h
    obtain ⟨hreal, hnext⟩ := h
    have hsettled : (Chronicle.scope.settle side c story).2.now.undone lock =
        story.now.undone lock := by
      cases side <;> rfl
    cases hf : (Chronicle.scope.settle side c story).1.forwarded with
    | false =>
      rw [Scope.call_elided hf] at hnext
      rw [run_elided hf, ← hsettled]
      exact ihnext _ _ hnext
    | true =>
      obtain ⟨hnone, hundone⟩ := ihreal _ (hreal hf)
      have hr : real.run ((Chronicle.scope.settle side c story).2.note side c) =
          (none, (real.run ((Chronicle.scope.settle side c story).2.note side c)).2) :=
        Prod.ext hnone rfl
      rw [Scope.call_returned hf (operation_eq hr)] at hnext
      rw [run_returned hf hr, ← hsettled]
      obtain ⟨hend, hrest⟩ := ihnext _ _ hnext
      exact ⟨hend, hrest.trans hundone⟩

variable [LawfulDirectory D]

theorem run_tallied (routine : Routine) {d : D} (hd : Sound d) (hempty : ledger d = ∅) :
    ∀ desk ∈ (routine.run (.start d)).2.desks, desk.Tallied := by
  -- a step adds the desk after it to those it keeps, and needs the last one to be sound
  let P (story : Chronicle D) := Sound story.now.directory ∧ ∀ desk ∈ story.desks, desk.Tallied
  suffices h : P (routine.run (.start d)).2 from h.2
  refine routine.run_keeps ?_ ?_ ?_ _ ⟨hd, ?_⟩
  · rintro side c story hf ⟨hd, ht⟩
    rw [Chronicle.settle_eq] at hf ⊢
    have hnow := ht story.now List.mem_cons_self
    exact ⟨(Desk.settle_law hd side c).2.sound, List.forall_mem_cons.mpr ⟨hnow.elided hd hf, ht⟩⟩
  · rintro side c story hf ⟨hd, ht⟩
    rw [Chronicle.settle_eq] at hf ⊢
    have hnow := ht story.now List.mem_cons_self
    exact ⟨(Desk.settle_law hd side c).2.sound, List.forall_mem_cons.mpr ⟨hnow.reached hd hf, ht⟩⟩
  · rintro side c story ⟨hd, ht⟩
    have hnow := ht story.now List.mem_cons_self
    cases side with
    | lock =>
      exact ⟨(Desk.undo_lock_law hd c).sound,
        List.forall_mem_cons.mpr ⟨hnow.undone hd .lock c, ht⟩⟩
    | unlock => exact ⟨hd, ht⟩
  · exact List.forall_mem_singleton.mpr (Desk.tallied_start hd hempty)

theorem conserved (routine : Routine) {d : D} (hd : Sound d) (hempty : ledger d = ∅) :
    routine.Conserved d := by
  have ht := routine.run_tallied hd hempty
  refine ⟨fun desk hm lock => (ht desk hm).balance lock, fun h lock i side hi => ?_⟩
  have hundone := (undone_of_unbroken lock routine _ h).2
  exact (ht _ List.mem_cons_self).alternate hundone hi

/-- **Real calls are conserved**, in any run over a slot table of any length and over a pooled
directory of any hash, pool and number of buckets. -/
theorem run_conserves (routine : Routine) : (∀ n, routine.Conserved (SlotTable.empty n)) ∧
    ∀ hash poolSize buckets, routine.Conserved (PooledDirectory.create hash poolSize buckets) := by
  constructor
  · intro n
    exact routine.conserved (SlotTable.sound_empty n).1 (SlotTable.ledger_empty n)
  · intro hash poolSize buckets
    exact routine.conserved (PooledDirectory.sound_create ..).1 (PooledDirectory.ledger_create ..)

/-- A real lock that is left and entered again from inside itself and then breaks off: two real
calls to lock it, one to unlock it, and one record undone. -/
example :
    let c : Call := ⟨⟨1⟩, .strict, []⟩
    let again : Routine := .call .unlock c (.done none) fun _ =>
      .call .lock c (.done none) fun _ => .done (some "broken")
    let desk := ((Routine.call .lock c again fun _ => .done none).run
      (.start (SlotTable.empty 2))).2.now
    desk.callsOn ⟨1⟩ = [.lock, .unlock, .lock] ∧ desk.undone ⟨1⟩ = 1 ∧
      contains desk.directory ⟨1⟩ = false := by
  decide +kernel

end Routine

end LockElision
