import LockElision.Bench.Operation
import LockElision.Proofs.Shield.Reversal

/-!
# Entering a lock

What entering a lock comes to for a worker can be read off the ledger of its directory. An `Entry`
says so; `Entry.raw` and `Entry.shielded` are those of the two ways in which the locks of a run are
entered. An `Access` is lawful when it does what its entry says, and when leaving a lock takes back
what entering it did, down to the layout of the directory (`Worker.WayBack`).

`Entry.ascent` enters some locks one after another, until one refuses: it yields the locks that were
really entered.
-/

namespace LockElision

/-- Something that is there if a call is real. -/
def ifReal {α : Type} (real : Bool) (a : α) : List α := if real then [a] else []

@[simp] theorem map_ifReal {α β : Type} (f : α → β) (real : Bool) (a : α) :
    (ifReal real a).map f = ifReal real (f a) := by
  cases real <;> rfl

@[simp] theorem reverse_ifReal {α : Type} (real : Bool) (a : α) :
    (ifReal real a).reverse = ifReal real a := by
  cases real <;> rfl

/-- Whether a lock is really entered, and the ledger afterwards; or why it is refused. -/
abbrev Entry := Ledger → BenchLock → Except Fault (Bool × Ledger)

namespace Entry

def raw : Entry := fun m _ => .ok (true, m)

def shielded (capacity : Option Nat) (address : BenchLock → LockId) (mode : Reentrancy) : Entry :=
  fun m lock =>
    let (status, m') := m.enter capacity (address lock) mode
    (status.toResult (address lock) (capacity.getD 0)).map fun status => (status.forwarded, m')

/-- The locks that are really entered, and why the next one is refused, if it is. -/
def ascent (entry : Entry) (m : Ledger) : List BenchLock → List BenchLock × Option Fault
  | [] => ([], none)
  | lock :: locks =>
    match entry m lock with
    | .error fault => ([], some fault)
    | .ok (real, m) =>
      let (path, fault) := ascent entry m locks
      (ifReal real lock ++ path, fault)

variable {capacity : Option Nat} {address : BenchLock → LockId} {mode : Reentrancy} {m m' : Ledger}
  {lock : BenchLock} {locks : List BenchLock} {fault : Fault} {real : Bool} {entry : Entry}

theorem ascent_refused (h : entry m lock = .error fault) :
    entry.ascent m (lock :: locks) = ([], some fault) := by
  rw [ascent, h]

theorem ascent_entered (h : entry m lock = .ok (real, m')) :
    entry.ascent m (lock :: locks) =
      (ifReal real lock ++ (entry.ascent m' locks).1, (entry.ascent m' locks).2) := by
  rw [ascent, h]

theorem ascent_sublist (entry : Entry) (locks : List BenchLock) : ∀ m : Ledger,
    (entry.ascent m locks).1.Sublist locks := by
  induction locks with
  | nil => exact fun _ => .slnil
  | cons lock locks ih =>
    intro m
    cases he : entry m lock with
    | error fault => rw [ascent_refused he]; exact List.nil_sublist _
    | ok entered =>
      obtain ⟨real, m'⟩ := entered
      rw [ascent_entered he]
      cases real with
      | true => exact (ih m').cons_cons lock
      | false => exact (ih m').cons lock

/-- A shield lets a lock in: either it is new, and there is room, or the owner enters it again. -/
theorem shielded_ok (h : shielded capacity address mode m lock = .ok (real, m')) :
    (real = true ∧ m.lookup (address lock) = none ∧ m' = m.insert (address lock) 1 ∧
      m.enter capacity (address lock) mode = (.entered, m')) ∨
    (real = false ∧ mode = .reentrant ∧ ∃ n, m.lookup (address lock) = some n ∧
      m' = m.insert (address lock) (n + 1) ∧
      m.enter capacity (address lock) mode = (.nested, m')) := by
  rw [shielded] at h
  cases hl : m.lookup (address lock) with
  | none =>
    rw [Ledger.enter_of_absent hl] at h ⊢
    by_cases hroom : m.hasRoom capacity = true
    · rw [if_pos hroom] at h ⊢
      obtain ⟨rfl, rfl⟩ := Prod.mk.inj (Except.ok.inj h)
      exact .inl ⟨rfl, rfl, rfl, rfl⟩
    · rw [if_neg hroom] at h
      cases h
  | some n =>
    cases mode with
    | strict => rw [Ledger.enter_strict hl] at h; cases h
    | reentrant =>
      rw [Ledger.enter_reentrant hl] at h ⊢
      obtain ⟨rfl, rfl⟩ := Prod.mk.inj (Except.ok.inj h)
      exact .inr ⟨rfl, rfl, n, rfl, rfl, rfl⟩

theorem shielded_error (h : shielded capacity address mode m lock = .error fault) :
    ∃ status, m.enter capacity (address lock) mode = (status, m) ∧
      status.toResult (address lock) (capacity.getD 0) = .error fault := by
  rw [shielded] at h
  cases hl : m.lookup (address lock) with
  | none =>
    rw [Ledger.enter_of_absent hl] at h ⊢
    by_cases hroom : m.hasRoom capacity = true
    · rw [if_pos hroom] at h
      cases h
    · rw [if_neg hroom] at h ⊢
      exact ⟨.full, rfl, congrArg Except.error (Except.error.inj h)⟩
  | some n =>
    cases mode with
    | strict =>
      rw [Ledger.enter_strict hl] at h ⊢
      exact ⟨.unbalanced, rfl, congrArg Except.error (Except.error.inj h)⟩
    | reentrant => rw [Ledger.enter_reentrant hl] at h; cases h

end Entry

open LawfulDirectory RestoringDirectory ReversibleDirectory

variable {D : Type} [Directory D] [LawfulDirectory D] [ReversibleDirectory D]
  {capacity : Option Nat} {m m' : Ledger} {w w' w'' : Worker D} {lock : BenchLock}

namespace Worker

structure Has (capacity : Option Nat) (m : Ledger) (w : Worker D) : Prop where
  fit : Fit w.directory
  capacity : Directory.capacity w.directory = capacity
  ledger : Directory.ledger w.directory = m

/-- At `w'` the worker is back at `w`: it has made some real calls, and its directory is the same
but for some nodes that were made, announced and thrown away. -/
structure Back (w w' : Worker D) (steps : List RealStep) (made : Nat) : Prop where
  directory : w'.directory = spent w.directory made
  notices : w'.notices.length = w.notices.length + made
  steps : w'.steps = steps.reverse ++ w.steps

theorem Back.refl (w : Worker D) : w.Back w [] 0 := ⟨spent_zero.symm, rfl, rfl⟩

theorem Back.trans {steps steps' : List RealStep} {made made' : Nat} (h : w.Back w' steps made)
    (h' : w'.Back w'' steps' made') : w.Back w'' (steps ++ steps') (made + made') := by
  refine ⟨?_, ?_, ?_⟩
  · rw [h'.directory, h.directory, spent_spent]
  · rw [h'.notices, h.notices, Nat.add_assoc]
  · rw [h'.steps, h.steps, List.reverse_append, List.append_assoc]

theorem Back.unchanged {steps : List RealStep} (h : w.Back w' steps 0) :
    w'.directory = w.directory := by
  rw [h.directory, spent_zero]

theorem Has.back {steps : List RealStep} {made : Nat} (hw : w.Has capacity m)
    (h : w.Back w' steps made) : w'.Has capacity m := by
  refine ⟨?_, ?_, ?_⟩ <;> rw [h.directory]
  · exact fit_spent hw.fit made
  · rw [capacity_spent, hw.capacity]
  · rw [ledger_spent, hw.ledger]

/-- However the worker comes back to `w'`, it comes back to `w` by leaving. -/
def WayBack (w w' : Worker D) (leave : WorkM D Unit) (there back : List RealStep) (cost : Nat) :
    Prop :=
  ∀ ⦃w₁ : Worker D⦄ ⦃steps : List RealStep⦄ ⦃made : Nat⦄, w'.Back w₁ steps made →
    ∃ w₂, leave w₁ = .ok () w₂ ∧ w.Back w₂ (there ++ steps ++ back) (cost + made)

theorem WayBack.through {leave : WorkM D Unit} {there back : List RealStep} {cost : Nat}
    (h : w'.WayBack w'' leave there back cost) (hback : w.Back w' [] 0) :
    w.WayBack w'' leave there back cost := by
  intro w₁ steps made h₁
  obtain ⟨w₂, hleave, h₂⟩ := h h₁
  exact ⟨w₂, hleave, by simpa using hback.trans h₂⟩

end Worker

/-- A way to enter locks does what its entry says, and leaving a lock takes back what entering it
did. `toll` says how many nodes have to be made to really enter so many locks. -/
structure Access.Lawful (access : Access D) (capacity : Option Nat) (entry : Entry)
    (toll : D → Nat → Nat) : Prop where
  toll_zero (d : D) : toll d 0 = 0
  enter_ok {w : Worker D} {m m' : Ledger} {lock : BenchLock} {real : Bool} :
    w.Has capacity m → entry m lock = .ok (real, m') →
    ∃ w' cost, access.enter lock w = .ok () w' ∧ w'.Has capacity m' ∧
      (∀ k, toll w.directory (k + real.toNat) = cost + toll w'.directory k) ∧
      w.WayBack w' (access.leave lock) (ifReal real (.enter lock)) (ifReal real (.leave lock)) cost
  enter_error {w : Worker D} {m : Ledger} {lock : BenchLock} {fault : Fault} :
    w.Has capacity m → entry m lock = .error fault →
    ∃ w', access.enter lock w = .error (.refused fault) w' ∧ w.Back w' [] 0

namespace Access

theorem raw_lawful : (raw : Access D).Lawful capacity .raw fun _ _ => 0 where
  toll_zero _ := rfl
  enter_ok {w m m' lock real} hw he := by
    obtain ⟨rfl, rfl⟩ := Prod.mk.inj (Except.ok.inj he)
    refine ⟨_, 0, rfl, ⟨hw.fit, hw.capacity, hw.ledger⟩, fun _ => rfl, ?_⟩
    intro w₁ steps made h
    refine ⟨_, rfl, h.directory.trans ?_, h.notices.trans ?_, ?_⟩
    · rw [Nat.zero_add]; rfl
    · rw [Nat.zero_add]; rfl
    · show _ :: w₁.steps = _
      rw [h.steps]
      simp [ifReal, Worker.note]
  enter_error _ he := by cases he

variable {address : BenchLock → LockId} {mode : Reentrancy}

omit [LawfulDirectory D] [ReversibleDirectory D] in
theorem shielded_enter (w : Worker D) : (shielded address mode : Access D).enter lock w =
    let r := acquire Worker.scope ⟨address lock, mode, []⟩ (Worker.perform (.enter lock)) w
    settle (AcquireStatus.toResult (address lock) ((Directory.capacity r.2.directory).getD 0)) r.1
      r.2 :=
  rfl

omit [LawfulDirectory D] [ReversibleDirectory D] in
theorem shielded_leave (w : Worker D) : (shielded address mode : Access D).leave lock w =
    let r := release Worker.scope ⟨address lock, mode, []⟩ (Worker.perform (.leave lock)) w
    settle (ReleaseStatus.toResult (address lock)) r.1 r.2 :=
  rfl

theorem admission_has (hw : w.Has capacity m) {id : LockId} {mode : Reentrancy}
    {status : AcquireStatus} {d : D} {notice : Option Exhaustion}
    (h : admission w.directory id mode = (status, d, notice)) :
    m.enter capacity id mode = (status, Directory.ledger d) ∧
      Directory.capacity d = capacity := by
  have hlaw := admission_law (sound hw.fit) id mode
  rw [hw.capacity, hw.ledger, h] at hlaw
  exact ⟨Prod.ext hlaw.1.symm hlaw.2.ledger.symm, hlaw.2.capacity.trans hw.capacity⟩

/-- A worker that was let in leaves by the way it came. -/
theorem shielded_wayBack {status : AcquireStatus} {d : D} {notice : Option Exhaustion}
    (hheld : status.isHeld = true)
    (h : Reversal w.directory (address lock) mode status d notice) :
    w.WayBack
      ⟨d, ifReal status.forwarded (.enter lock) ++ w.steps, notice.toList ++ w.notices, w.drawn⟩
      ((shielded address mode : Access D).leave lock) (ifReal status.forwarded (.enter lock))
      (ifReal status.forwarded (.leave lock)) notice.toList.length := by
  intro w₁ steps made hback
  have hwith : withdrawal w₁.directory (address lock) mode =
      (status.takenBack, spent w.directory (notice.toList.length + made)) := by
    rw [hback.directory]
    exact h.withdrawal made
  have hnotices : w₁.notices.length = w.notices.length + (notice.toList.length + made) := by
    have hlength := hback.notices
    simp only [List.length_append] at hlength
    omega
  refine ⟨⟨spent w.directory (notice.toList.length + made),
    ifReal status.forwarded (.leave lock) ++ w₁.steps, w₁.notices, w₁.drawn⟩, ?_, rfl, hnotices, ?_⟩
  · cases status with
    | entered | nested =>
      simp only [shielded_leave, release, Worker.scope, hwith]
      rfl
    | unbalanced | full => cases hheld
  · simp [hback.steps]

theorem shielded_lawful : (shielded address mode : Access D).Lawful capacity
    (.shielded capacity address mode) dry where
  toll_zero _ := dry_zero
  enter_ok {w m m' lock real} hw he := by
    obtain ⟨status, d, notice, hadm⟩ : ∃ status d notice,
        admission w.directory (address lock) mode = (status, d, notice) := ⟨_, _, _, rfl⟩
    obtain ⟨hstatus, hcapacity⟩ := admission_has hw hadm
    rcases Entry.shielded_ok he with ⟨rfl, -, -, henter⟩ | ⟨rfl, -, n, -, -, henter⟩
    all_goals
      rw [hstatus] at henter
      obtain ⟨rfl, rfl⟩ := Prod.mk.inj henter
      have h := admission_reversal hw.fit hadm rfl
      refine ⟨⟨d, _ ++ w.steps, notice.toList ++ w.notices, w.drawn⟩, notice.toList.length, ?_,
        ⟨h.fit, hcapacity, rfl⟩, h.dry, shielded_wayBack rfl h⟩
      simp only [shielded_enter, acquire, Worker.scope, hadm]
      rfl
  enter_error {w m lock fault} hw he := by
    obtain ⟨status, d, notice, hadm⟩ : ∃ status d notice,
        admission w.directory (address lock) mode = (status, d, notice) := ⟨_, _, _, rfl⟩
    obtain ⟨hstatus, -⟩ := admission_has hw hadm
    obtain ⟨status', henter, hfault⟩ := Entry.shielded_error he
    rw [hstatus] at henter
    obtain ⟨rfl, -⟩ := Prod.mk.inj henter
    rw [← hw.capacity] at hfault
    cases status with
    | entered | nested => cases hfault
    | unbalanced | full =>
      have hsame := admission_refused (congrArg (fun a => a.1.isHeld) hadm)
      rw [hadm] at hsame
      obtain ⟨rfl, rfl⟩ := Prod.mk.inj hsame
      obtain rfl := Except.error.inj hfault
      refine ⟨w, ?_, .refl w⟩
      simp only [shielded_enter, acquire, Worker.scope, hadm]
      rfl

end Access

end LockElision
