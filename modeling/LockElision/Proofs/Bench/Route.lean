import LockElision.Proofs.Bench.Entry

/-!
# Routes

The locks an operation enters, in order, and the real calls it makes on its way there and back. How
far it gets is what `Entry.ascent` says of its route: if it is refused a lock, it goes back the way
it came, and fails. Either way it ends with the directory it began with (`nest_law`, `walk_law`).
-/

namespace LockElision

/-- Enters some locks and leaves them, the last one first. -/
def round (path : List BenchLock) : List RealStep :=
  path.map RealStep.enter ++ path.reverse.map RealStep.leave

theorem round_ifReal (real : Bool) (lock : BenchLock) (path : List BenchLock) :
    round (ifReal real lock ++ path) =
      ifReal real (.enter lock) ++ round path ++ ifReal real (.leave lock) := by
  simp [round]

/-- A lock of each of `count` levels in a row, from `level` on. -/
inductive Stair (locksPerLevel : Nat) : (level count : Nat) → List BenchLock → Prop where
  | nil {level : Nat} : Stair locksPerLevel level 0 []
  | cons {level count index : Nat} {locks : List BenchLock} : index < locksPerLevel →
      Stair locksPerLevel (level + 1) count locks →
      Stair locksPerLevel level (count + 1) (.level level index :: locks)

@[simp] theorem length_ifReal {α : Type} (real : Bool) (a : α) :
    (ifReal real a).length = real.toNat := by
  cases real <;> rfl

variable {D : Type} [Directory D] [LawfulDirectory D] [ReversibleDirectory D]
  {capacity : Option Nat} {m m' : Ledger} {w w' w'' : Worker D} {lock : BenchLock}
  {access : Access D} {entry : Entry} {toll : D → Nat → Nat} {α β : Type}

/-- How an operation ends that was refused a lock, or was not. -/
def Worker.ended (w : Worker D) : Option Fault → EStateM.Result Interruption (Worker D) Unit
  | none => .ok () w
  | some fault => .error (.refused fault) w

namespace WorkM

omit [Directory D] [LawfulDirectory D] [ReversibleDirectory D]

theorem bind_ok {x : WorkM D α} {f : α → WorkM D β} {a : α} (h : x w = .ok a w') :
    (x >>= f) w = f a w' := by
  show EStateM.bind x f w = _
  rw [EStateM.bind, h]

theorem bind_error {x : WorkM D α} {f : α → WorkM D β} {e : Interruption}
    (h : x w = .error e w') : (x >>= f) w = .error e w' := by
  show EStateM.bind x f w = _
  rw [EStateM.bind, h]

theorem bind_run {x y : WorkM D α} {f : α → WorkM D β} (h : x w = y w') :
    (x >>= f) w = (y >>= f) w' := by
  show EStateM.bind x f w = EStateM.bind y f w'
  rw [EStateM.bind, EStateM.bind, h]

theorem catch_error {x : WorkM D α} {f : Interruption → WorkM D α} {e : Interruption}
    (h : x w = .error e w') : (tryCatch x f) w = f e w' := by
  show EStateM.tryCatch x f w = _
  rw [EStateM.tryCatch, h]
  rfl

theorem catch_ok {x : WorkM D α} {f : Interruption → WorkM D α} {a : α} (h : x w = .ok a w') :
    (tryCatch x f) w = .ok a w' := by
  show EStateM.tryCatch x f w = _
  rw [EStateM.tryCatch, h]

/-- Something is done in any case after an operation, and then its refusal is passed on. -/
theorem finally_ended {x y : WorkM D Unit} {fault : Option Fault} (h : x w = w'.ended fault)
    (hy : y w' = .ok () w'') :
    (do let inner ← observing x; y; ofExcept inner : WorkM D Unit) w = w''.ended fault := by
  cases fault with
  | none =>
    have hx : observing x w = .ok (.ok ()) w' := catch_ok (bind_ok h)
    exact (bind_ok hx).trans (bind_ok hy)
  | some fault =>
    have hx : observing x w = .ok (.error (.refused fault)) w' := catch_error (bind_error h)
    exact (bind_ok hx).trans (bind_ok hy)

end WorkM

namespace Operation

open WorkM

omit [Directory D] [LawfulDirectory D] [ReversibleDirectory D] in
theorem toll_ifReal {d d' : D} {real : Bool} {cost : Nat}
    (h : ∀ k, toll d (k + real.toNat) = cost + toll d' k) (lock : BenchLock)
    (path : List BenchLock) :
    toll d (ifReal real lock ++ path).length = cost + toll d' path.length := by
  rw [List.length_append, length_ifReal, Nat.add_comm, h]

theorem stays (ha : access.Lawful capacity entry toll) (h : w.Back w' [] 0) :
    w.Back w' (round []) (toll w.directory ([] : List BenchLock).length) := by
  rw [List.length_nil, ha.toll_zero]
  exact h

/-- Entering a lock over and over is an ascent, and leaving it as often the way back. -/
theorem nest_law (ha : access.Lawful capacity entry toll) (lock : BenchLock) : ∀ (more : Nat)
    {m : Ledger} {w : Worker D}, w.Has capacity m →
    let r := entry.ascent m (List.replicate (more + 1) lock)
    ∃ w', nest access lock more w = w'.ended r.2 ∧
      w.Back w' (round r.1) (toll w.directory r.1.length) := by
  intro more
  induction more with
  | zero =>
    intro m w hw r
    cases he : entry m lock with
    | error fault =>
      obtain ⟨w', henter, hback⟩ := ha.enter_error hw he
      rw [show r = ([], some fault) from Entry.ascent_refused he]
      exact ⟨w', bind_error henter, stays ha hback⟩
    | ok entered =>
      obtain ⟨real, m'⟩ := entered
      obtain ⟨w₁, cost, henter, -, htoll, hway⟩ := ha.enter_ok hw he
      obtain ⟨w₂, hleave, hback⟩ := hway (stays ha (.refl w₁))
      rw [show r = _ from Entry.ascent_entered he, round_ifReal, toll_ifReal htoll]
      exact ⟨w₂, (bind_ok henter).trans hleave, hback⟩
  | succ more ih =>
    intro m w hw r
    cases he : entry m lock with
    | error fault =>
      obtain ⟨w', henter, hback⟩ := ha.enter_error hw he
      rw [show r = ([], some fault) from Entry.ascent_refused he]
      exact ⟨w', bind_error henter, stays ha hback⟩
    | ok entered =>
      obtain ⟨real, m'⟩ := entered
      obtain ⟨w₁, cost, henter, hw₁, htoll, hway⟩ := ha.enter_ok hw he
      obtain ⟨w₂, hinner, hback₁⟩ := ih hw₁
      obtain ⟨w₃, hleave, hback⟩ := hway hback₁
      rw [show r = _ from Entry.ascent_entered he, round_ifReal, toll_ifReal htoll]
      exact ⟨w₃, (bind_ok henter).trans (finally_ended hinner hleave), hback⟩

theorem draw_law (choices : Choices) (n : Nat) (w : Worker D) : ∃ i w',
    draw choices n w = .ok i w' ∧ i ≤ n ∧ w.Back w' [] 0 :=
  ⟨_, _, rfl, Nat.lt_succ_iff.mp (choices w.drawn n).isLt,
    RestoringDirectory.spent_zero.symm, rfl, rfl⟩

theorem pick_law (choices : Choices) {locksPerLevel : Nat} (hlocks : 0 < locksPerLevel)
    (level : Nat) (w : Worker D) : ∃ index w',
      pick choices locksPerLevel level w = .ok (.level level index) w' ∧ index < locksPerLevel ∧
      w.Back w' [] 0 := by
  obtain ⟨n, rfl⟩ : ∃ n, locksPerLevel = n + 1 := ⟨locksPerLevel - 1, by omega⟩
  obtain ⟨i, w', hdraw, hi, hback⟩ := draw_law choices n w
  exact ⟨i, w', bind_ok hdraw, Nat.lt_succ_iff.mpr hi, hback⟩

theorem exists_stair {locksPerLevel : Nat} (hlocks : 0 < locksPerLevel) :
    ∀ count level, ∃ locks, Stair locksPerLevel level count locks
  | 0, _ => ⟨[], .nil⟩
  | count + 1, level =>
    let ⟨_, h⟩ := exists_stair hlocks count (level + 1)
    ⟨_, .cons hlocks h⟩

theorem wayBack_leaveAll {held : List BenchLock} {there back there' back' : List RealStep}
    {cost cost' : Nat} (h : w.WayBack w' (leaveAll access held) there back cost)
    (h' : w'.WayBack w'' (access.leave lock) there' back' cost') :
    w.WayBack w'' (leaveAll access (lock :: held)) (there ++ there') (back' ++ back)
      (cost + cost') := by
  intro w₁ steps made hback
  obtain ⟨w₂, hleave, hback₁⟩ := h' hback
  obtain ⟨w₃, hrest, hback₂⟩ := h hback₁
  refine ⟨w₃, (bind_ok hleave).trans hrest, ?_⟩
  rw [Nat.add_assoc]
  simpa using hback₂

/-- A climb from `w` on, by a worker that knows the way back from there to `w₀`, ends at `w₀`. -/
theorem climb_law (ha : access.Lawful capacity entry toll) (choices : Choices)
    {locksPerLevel : Nat} (hlocks : 0 < locksPerLevel) {w₀ : Worker D} : ∀ (count level : Nat)
    {held : List BenchLock} {there back : List RealStep} {cost : Nat} {m : Ledger} {w : Worker D},
    w₀.WayBack w (leaveAll access held) there back cost → w.Has capacity m →
    ∃ locks, Stair locksPerLevel level count locks ∧
      let r := entry.ascent m locks
      ∃ w', (climb access choices locksPerLevel count level held >>= leaveAll access) w =
          w'.ended r.2 ∧
        w₀.Back w' (there ++ round r.1 ++ back) (cost + toll w.directory r.1.length) := by
  intro count
  induction count with
  | zero =>
    intro level held there back cost m w hway hw
    obtain ⟨w', hleave, hback⟩ := hway (stays ha (.refl w))
    exact ⟨[], .nil, w', (bind_ok rfl).trans hleave, hback⟩
  | succ count ih =>
    intro level held there back cost m w hway hw
    obtain ⟨index, w₁, hpick, hindex, hback₁⟩ := pick_law choices hlocks level w
    have hw₁ := hw.back hback₁
    cases he : entry m (.level level index) with
    | error fault =>
      obtain ⟨rest, hrest⟩ := exists_stair hlocks count (level + 1)
      obtain ⟨w₂, henter, hback₂⟩ := ha.enter_error hw₁ he
      obtain ⟨w₃, hleave, hback₃⟩ := hway (stays ha (hback₁.trans hback₂))
      refine ⟨_, .cons hindex hrest, ?_⟩
      rw [Entry.ascent_refused he]
      refine ⟨w₃, bind_error ((bind_ok hpick).trans ?_), hback₃⟩
      exact bind_error ((catch_error henter).trans (bind_ok hleave))
    | ok entered =>
      obtain ⟨real, m'⟩ := entered
      obtain ⟨w₂, cost', henter, hw₂, htoll, hway'⟩ := ha.enter_ok hw₁ he
      have hway := wayBack_leaveAll hway (hway'.through hback₁)
      obtain ⟨rest, hrest, w₃, hclimb, hback₃⟩ := ih (level + 1) hway hw₂
      refine ⟨_, .cons hindex hrest, ?_⟩
      rw [Entry.ascent_entered he]
      refine ⟨w₃, ?_, ?_⟩
      · have hrun : climb access choices locksPerLevel (count + 1) level held w =
            climb access choices locksPerLevel count (level + 1) (.level level index :: held) w₂ :=
          (bind_ok hpick).trans (bind_ok (catch_ok henter))
        exact (bind_run hrun).trans hclimb
      · rw [round_ifReal, ← hback₁.unchanged, toll_ifReal htoll]
        simpa [Nat.add_assoc] using hback₃

theorem walk_law (ha : access.Lawful capacity entry toll) (choices : Choices)
    {levels locksPerLevel depth : Nat} (hlocks : 0 < locksPerLevel) (hdepth : depth ≤ levels)
    (hw : w.Has capacity m) : ∃ start locks, start + depth ≤ levels ∧
      Stair locksPerLevel start depth locks ∧
      let r := entry.ascent m locks
      ∃ w', walk access choices levels locksPerLevel depth w = w'.ended r.2 ∧
        w.Back w' (round r.1) (toll w.directory r.1.length) := by
  obtain ⟨start, w₁, hdraw, hstart, hback₁⟩ := draw_law choices (levels - depth) w
  have hway : w.WayBack w₁ (leaveAll access []) [] [] 0 :=
    fun w₂ steps made hback₂ => ⟨w₂, rfl, by simpa using hback₁.trans hback₂⟩
  obtain ⟨locks, hstair, w', hclimb, hback⟩ :=
    climb_law ha choices hlocks depth start hway (hw.back hback₁)
  refine ⟨start, locks, by omega, hstair, w', ?_, ?_⟩
  · rw [walk, if_neg (by omega)]
    exact (bind_ok hdraw).trans hclimb
  · rw [← hback₁.unchanged]
    simpa using hback

end Operation

end LockElision
