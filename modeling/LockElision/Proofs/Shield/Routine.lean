import LockElision.Proofs.Shield.Lending

/-!
# Routines

A routine is what a thread does with one shield: a call, whose real operation is a routine of its
own, and then whatever the end of the call makes it do. A break-off that is not caught is a routine
that breaks off after one of its calls did. Running a routine keeps a `Chronicle`: the desk as it
is, and as it was before every step of bookkeeping.

Nothing happens in a run but the steps of its calls, so what these steps keep, a run keeps
(`Routine.run_keeps`). A script of calls is a routine that catches every break-off right outside its
call (`Script.run_routine`).
-/

namespace LockElision

/-- It may break off at its end. What follows a call may catch its break-off or break off too. -/
inductive Routine where
  | done (panic : Option Panic)
  | call (side : Side) (call : Call) (real : Routine) (next : Except Panic CallStatus → Routine)

structure Chronicle (D : Type) where
  now : Desk D
  /-- The desk before each bookkeeping step, newest first. -/
  before : List (Desk D)

namespace Chronicle

variable {D : Type}

def start (d : D) : Chronicle D := ⟨Desk.start d, []⟩

/-- The desk between any two bookkeeping steps so far, newest first. -/
def desks (story : Chronicle D) : List (Desk D) := story.now :: story.before

def scope : Scope (Chronicle D) D where
  directory story := story.now.directory
  book booking d story := ⟨Desk.scope.book booking d story.now, story.desks⟩

/-- A call reaches its real operation. -/
def note (story : Chronicle D) (side : Side) (c : Call) : Chronicle D :=
  { story with now := story.now.note side c }

variable [Directory D]

theorem settle_eq (story : Chronicle D) (side : Side) (c : Call) :
    scope.settle side c story = ((Desk.scope.settle side c story.now).1,
      ⟨(Desk.scope.settle side c story.now).2, story.desks⟩) := by
  cases side <;> rfl

theorem undo_now (story : Chronicle D) (side : Side) (c : Call) :
    (scope.undo side c story).now = Desk.scope.undo side c story.now := by
  cases side <;> rfl

end Chronicle

namespace Routine

variable {D : Type} [Directory D]

/-- How a routine ends, and the chronicle after it. -/
def run : Routine → Chronicle D → Option Panic × Chronicle D
  | done panic, story => (panic, story)
  | call side c real next, story =>
    let operation : Primitive (Chronicle D) Unit := fun story =>
      let (panic, story) := real.run (story.note side c)
      (((), panic), story)
    let ((ended, _), story) := Chronicle.scope.call side c operation story
    (next ended).run story

/-- A routine as the real operation of a call. -/
def operation (real : Routine) (side : Side) (c : Call) : Primitive (Chronicle D) Unit :=
  fun story =>
    let (panic, story) := real.run (story.note side c)
    (((), panic), story)

theorem run_call (side : Side) (c : Call) (real : Routine)
    (next : Except Panic CallStatus → Routine) (story : Chronicle D) :
    (call side c real next).run story =
      let ((ended, _), story) := Chronicle.scope.call side c (real.operation side c) story
      (next ended).run story := rfl

theorem operation_eq {real : Routine} {side : Side} {c : Call} {story story' : Chronicle D}
    {panic : Option Panic} (h : real.run (story.note side c) = (panic, story')) :
    real.operation side c story = (((), panic), story') := by
  unfold operation
  rw [h]

section Runs

variable {side : Side} {c : Call} {real : Routine} {next : Except Panic CallStatus → Routine}
  {story story' : Chronicle D} {panic : Panic}

theorem run_elided (h : (Chronicle.scope.settle side c story).1.forwarded = false) :
    (call side c real next).run story =
      (next (.ok (Chronicle.scope.settle side c story).1)).run
        (Chronicle.scope.settle side c story).2 := by
  rw [run_call, Scope.call_elided h]

theorem run_returned (h : (Chronicle.scope.settle side c story).1.forwarded = true)
    (hr : real.run ((Chronicle.scope.settle side c story).2.note side c) = (none, story')) :
    (call side c real next).run story =
      (next (.ok (Chronicle.scope.settle side c story).1)).run story' := by
  rw [run_call, Scope.call_returned h (operation_eq hr)]

theorem run_broken (h : (Chronicle.scope.settle side c story).1.forwarded = true)
    (hr : real.run ((Chronicle.scope.settle side c story).2.note side c) = (some panic, story')) :
    (call side c real next).run story =
      (next (.error panic)).run (Chronicle.scope.undo side c story') := by
  rw [run_call, Scope.call_broken h (operation_eq hr)]

end Runs

/-- What every step of bookkeeping keeps, with the real operation called where it has to be, every
run keeps. -/
theorem run_keeps {P : Chronicle D → Prop}
    (helided : ∀ side c story, (Chronicle.scope.settle side c story).1.forwarded = false →
      P story → P (Chronicle.scope.settle side c story).2)
    (hreached : ∀ side c story, (Chronicle.scope.settle side c story).1.forwarded = true →
      P story → P ((Chronicle.scope.settle side c story).2.note side c))
    (hundone : ∀ side c story, P story → P (Chronicle.scope.undo side c story))
    (routine : Routine) : ∀ story, P story → P (routine.run story).2 := by
  induction routine with
  | done panic => exact fun story h => h
  | call side c real next ihreal ihnext =>
    intro story h
    cases hf : (Chronicle.scope.settle side c story).1.forwarded with
    | false =>
      rw [run_elided hf]
      exact ihnext _ _ (helided side c story hf h)
    | true =>
      have hreal := ihreal _ (hreached side c story hf h)
      rcases hr : real.run ((Chronicle.scope.settle side c story).2.note side c) with
        ⟨_ | panic, story'⟩
      · rw [hr] at hreal
        rw [run_returned hf hr]
        exact ihnext _ _ hreal
      · rw [hr] at hreal
        rw [run_broken hf hr]
        exact ihnext _ _ (hundone side c story' hreal)

open LawfulDirectory

variable [LawfulDirectory D]

theorem run_sound (routine : Routine) (story : Chronicle D) (hd : Sound story.now.directory) :
    Sound (routine.run story).2.now.directory := by
  refine routine.run_keeps (P := fun story => Sound story.now.directory) ?_ ?_ ?_ story hd
  · intro side c story _ hd
    rw [Chronicle.settle_eq]
    exact (Desk.settle_law hd side c).2.sound
  · intro side c story _ hd
    rw [Chronicle.settle_eq]
    exact (Desk.settle_law hd side c).2.sound
  · intro side c story hd
    cases side with
    | lock => exact (Desk.undo_lock_law hd c).sound
    | unlock => exact hd

end Routine

/-! ## Scripts are routines -/

namespace Script

/-- The calls of a script as a routine that catches whatever breaks off in them, and breaks off at
its end if `panic` says so. -/
def routine : Script → Option Panic → Routine
  | done, panic => .done panic
  | enquire _ next, panic | command _ next, panic => next.routine panic
  | call side c inner broken next, panic =>
    .call side c (inner.routine broken) fun _ => next.routine panic

theorem alike_run_routine {D : Type} [Inspectable D] (script : Script)
    (hcalls : script.onlyCalls = true) : ∀ (panic : Option Panic) (story : Chronicle D)
      (desk : Desk D), story.now.Alike some desk →
      ((script.routine panic).run story).1 = panic ∧
        ((script.routine panic).run story).2.now.Alike some (script.run desk).2 := by
  induction script with
  | done => exact fun panic story desk h => ⟨rfl, h⟩
  | enquire | command => cases hcalls
  | call side c inner broken next ihinner ihnext =>
    intro panic story desk h
    obtain ⟨hinner, hnext⟩ := Bool.and_eq_true_iff.mp hcalls
    obtain ⟨hstatus, hsettled⟩ := h.settle side c
    have hstory := Chronicle.settle_eq story side c
    rw [routine, run_call]
    cases hf : (Desk.scope.settle side c desk).1.forwarded with
    | false =>
      rw [Routine.run_elided (by rw [hstory, hstatus, hf]), Scope.call_elided hf, hstory]
      exact ihnext hnext panic _ _ (hsettled.conclude c.lock)
    | true =>
      have hentered : ((Chronicle.scope.settle side c story).2.note side c).now.Alike some
          ((Desk.scope.settle side c desk).2.note side c) := by
        rw [hstory]
        exact hsettled.note side c
      have hf' : (Chronicle.scope.settle side c story).1.forwarded = true := by
        rw [hstory, hstatus, hf]
      obtain ⟨hended, hran⟩ := ihinner hinner broken _ _ hentered
      rcases hr : (inner.routine broken).run
        ((Chronicle.scope.settle side c story).2.note side c) with ⟨ended, after⟩
      rw [hr] at hended hran
      obtain rfl : ended = broken := hended
      have hplain : inner.primitive side c ended (Desk.scope.settle side c desk).2 =
          (((inner.run ((Desk.scope.settle side c desk).2.note side c)).1, ended),
            (inner.run ((Desk.scope.settle side c desk).2.note side c)).2) := rfl
      cases ended with
      | none =>
        rw [Routine.run_returned hf' hr, Scope.call_returned hf hplain]
        exact ihnext hnext panic _ _ (hran.conclude c.lock)
      | some broken =>
        have hundone : (Chronicle.scope.undo side c after).now.Alike some
            (Desk.scope.undo side c
              (inner.run ((Desk.scope.settle side c desk).2.note side c)).2) := by
          rw [Chronicle.undo_now]
          exact hran.undo side c
        rw [Routine.run_broken hf' hr, Scope.call_broken hf hplain]
        exact ihnext hnext panic _ _ (hundone.conclude c.lock)

/-- **A script of calls is a routine.** Run as one, it makes the same things happen and leaves the
same directory. -/
theorem run_routine {D : Type} [Inspectable D] (script : Script)
    (hcalls : script.onlyCalls = true) (panic : Option Panic) (story : Chronicle D) :
    let (ended, after) := (script.routine panic).run story
    ended = panic ∧ after.now.directory = (script.run story.now).2.directory ∧
      after.now.journal = (script.run story.now).2.journal := by
  obtain ⟨hended, hdirectory, hseen⟩ :=
    script.alike_run_routine hcalls panic story story.now ⟨rfl, rfl⟩
  rw [List.filterMap_some, List.filterMap_some] at hseen
  exact ⟨hended, hdirectory, hseen⟩

end Script

end LockElision
