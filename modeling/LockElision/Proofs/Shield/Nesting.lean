import LockElision.Proofs.Shield.Lending

/-!
# Nested calls in a row

A real operation may make shielded calls of its own. To the directory that is the same as making all
the calls one after the other, outer before inner, with real operations that do nothing; only where
a real lock broke off, its lock is removed once more behind the calls made inside it (`Reply.row`).
Running the row gives every call the status it had, comes to the same real operations in the same
order, and leaves the same directory (`Script.run_row`).
-/

namespace LockElision

/-- What comes behind the calls made inside a call: a removal, if its real lock broke off. -/
def Script.afterwards (side : Side) (c : Call) (ended : Except Panic CallStatus) (rest : Script) :
    Script :=
  match side, ended with
  | .lock, .error _ => .command (.remove c.lock) rest
  | _, _ => rest

namespace Reply

mutual
/-- The calls that were made, outer before inner, with `rest` behind them. -/
def row : Reply → Script → Script
  | .call side c ended _ inner _, rest =>
    .call side c .done none (rowAll inner (Script.afterwards side c ended rest))
  | _, rest => rest

def rowAll : List Reply → Script → Script
  | [], rest => rest
  | reply :: replies, rest => reply.row (rowAll replies rest)
end

mutual
/-- How the calls ended, outer before inner. -/
def endings : Reply → List (Except Panic CallStatus)
  | .call _ _ ended _ inner _ => ended :: endingsAll inner
  | _ => []

def endingsAll : List Reply → List (Except Panic CallStatus)
  | [] => []
  | reply :: replies => reply.endings ++ endingsAll replies
end

theorem endingsAll_append (before after : List Reply) :
    endingsAll (before ++ after) = endingsAll before ++ endingsAll after := by
  induction before with
  | nil => rfl
  | cons reply before ih =>
    rw [List.cons_append, endingsAll, endingsAll, ih, List.append_assoc]

end Reply

def Happening.real? : Happening → Option (Side × Call)
  | .called side c => some (side, c)
  | .booked _ => none

namespace Desk

variable {D : Type}

/-- The calls that came to their real operations, newest first. -/
def realCalls (desk : Desk D) : List (Side × Call) := desk.journal.filterMap Happening.real?

end Desk

/-- A call that came back nested came back with the same status in the row. -/
def Agree (nested inRow : Except Panic CallStatus) : Prop :=
  ∀ status, nested = .ok status → inRow = .ok status

namespace Script

variable {D : Type} [Inspectable D] {before middle after flat desk : Desk D}
  {row row₁ row₂ : Script → Script} {replies replies₁ replies₂ : List Reply} {side : Side}
  {c : Call}

/-- With `row` in front, a script first gives `replies` and then goes on from `after`. -/
def Plays (row : Script → Script) (before : Desk D) (replies : List Reply) (after : Desk D) :
    Prop :=
  ∀ rest, (row rest).run before = (replies ++ (rest.run after).1, (rest.run after).2)

theorem Plays.id (desk : Desk D) : Plays (fun rest => rest) desk [] desk := fun _ => rfl

theorem Plays.comp (h₁ : Plays row₁ before replies₁ middle)
    (h₂ : Plays row₂ middle replies₂ after) :
    Plays (fun rest => row₁ (row₂ rest)) before (replies₁ ++ replies₂) after := by
  intro rest
  rw [h₁, h₂, List.append_assoc]

/-- The row played from `flat` ends like the nested calls that ended with `endings` in `after`. -/
def Follows (row : Script → Script) (flat : Desk D) (endings : List (Except Panic CallStatus))
    (after : Desk D) : Prop :=
  ∃ replies flat', Plays row flat replies flat' ∧ flat'.Alike Happening.real? after ∧
    List.Forall₂ Agree endings (Reply.endingsAll replies)

theorem Follows.id (h : flat.Alike Happening.real? desk) :
    Follows (fun rest => rest) flat [] desk :=
  ⟨[], flat, .id flat, h, .nil⟩

theorem Follows.comp {endings₁ endings₂ : List (Except Panic CallStatus)}
    (h₁ : Follows row₁ flat endings₁ middle)
    (h₂ : ∀ flat : Desk D, flat.Alike Happening.real? middle → Follows row₂ flat endings₂ after) :
    Follows (fun rest => row₁ (row₂ rest)) flat (endings₁ ++ endings₂) after := by
  obtain ⟨replies₁, flat₁, hplays₁, halike₁, hendings₁⟩ := h₁
  obtain ⟨replies₂, flat₂, hplays₂, halike₂, hendings₂⟩ := h₂ flat₁ halike₁
  refine ⟨replies₁ ++ replies₂, flat₂, hplays₁.comp hplays₂, halike₂, ?_⟩
  rw [Reply.endingsAll_append]
  exact List.rel_append hendings₁ hendings₂

theorem Follows.conclude {endings : List (Except Panic CallStatus)}
    (h : Follows row flat endings after) (lock : LockId) :
    Follows row flat endings (after.conclude lock).2 := by
  obtain ⟨replies, flat', hplays, halike, hendings⟩ := h
  exact ⟨replies, flat', hplays, halike.conclude lock, hendings⟩

theorem plays_call {ended : Except Panic CallStatus} {yield : Option (List Reply)}
    (h : Desk.scope.call side c (done.primitive side c none) before = ((ended, yield), after)) :
    Plays (call side c done none) before
      [.call side c ended yield.isSome (yield.getD []) (after.conclude c.lock).1]
      (after.conclude c.lock).2 := by
  intro rest
  rw [run_call, h]
  rfl

theorem follows_elided (h : flat.Alike Happening.real? desk)
    (hf : (Desk.scope.settle side c desk).1.forwarded = false) :
    Follows (call side c done none) flat [.ok (Desk.scope.settle side c desk).1]
      (Desk.scope.settle side c desk).2 := by
  obtain ⟨hstatus, hsettled⟩ := h.settle side c
  rw [← hstatus] at hf ⊢
  refine ⟨_, _, plays_call (Scope.call_elided hf), ?_, .cons (fun _ h => h) .nil⟩
  exact ⟨hsettled.directory, hsettled.seen⟩

/-- In the row a real operation that is called does nothing and comes back. -/
theorem follows_reached (h : flat.Alike Happening.real? desk)
    (hf : (Desk.scope.settle side c desk).1.forwarded = true) {ended : Except Panic CallStatus}
    (hended : Agree ended (.ok (Desk.scope.settle side c desk).1)) :
    Follows (call side c done none) flat [ended]
      ((Desk.scope.settle side c desk).2.note side c) := by
  obtain ⟨hstatus, hsettled⟩ := h.settle side c
  rw [← hstatus] at hf hended
  have hnoted := hsettled.note side c
  refine ⟨_, _, plays_call (Scope.call_returned hf rfl), ?_, .cons hended .nil⟩
  exact ⟨hnoted.directory, hnoted.seen⟩

theorem run_remove (d : D) (lock : LockId) :
    (DirectoryCommand.run d (.remove lock)).2.1 = (rollBack d lock).2 := by
  rw [DirectoryCommand.run, rollBack]
  rcases Directory.remove d lock with _ | ⟨h, d'⟩ <;> rfl

/-- The removal behind a broken real lock is what undoing its call does. -/
theorem follows_undo (h : flat.Alike Happening.real? desk) (side : Side) (c : Call)
    (panic : Panic) :
    Follows (afterwards side c (.error panic)) flat [] (Desk.scope.undo side c desk) := by
  cases side with
  | unlock => exact .id h
  | lock =>
    refine ⟨[_], _, fun rest => rfl, ⟨?_, h.seen⟩, .nil⟩
    show (DirectoryCommand.run flat.directory (.remove c.lock)).2.1 =
      (rollBack desk.directory c.lock).2
    rw [run_remove, h.directory]

theorem afterwards_ok (side : Side) (c : Call) (status : CallStatus) :
    afterwards side c (.ok status) = fun rest => rest := by
  cases side <;> rfl

theorem follows_reply {inner : Script} {panic : Option Panic} (h : flat.Alike Happening.real? desk)
    (hinner : ∀ flat desk : Desk D, flat.Alike Happening.real? desk →
      Follows (Reply.rowAll (inner.run desk).1) flat (Reply.endingsAll (inner.run desk).1)
        (inner.run desk).2)
    {ended : Except Panic CallStatus} {yield : Option (List Reply)}
    (hcall : Desk.scope.call side c (inner.primitive side c panic) desk = ((ended, yield), after)) :
    Follows
      (fun rest =>
        call side c done none (Reply.rowAll (yield.getD []) (afterwards side c ended rest)))
      flat (ended :: Reply.endingsAll (yield.getD [])) after := by
  cases hf : (Desk.scope.settle side c desk).1.forwarded with
  | false =>
    rw [Scope.call_elided hf] at hcall
    cases hcall
    rw [afterwards_ok]
    exact follows_elided h hf
  | true =>
    have hran : inner.primitive side c panic (Desk.scope.settle side c desk).2 =
        (((inner.run ((Desk.scope.settle side c desk).2.note side c)).1, panic),
          (inner.run ((Desk.scope.settle side c desk).2.note side c)).2) := rfl
    cases panic with
    | none =>
      rw [Scope.call_returned hf hran] at hcall
      cases hcall
      rw [afterwards_ok]
      exact (follows_reached h hf fun _ h => h).comp fun flat h => hinner flat _ h
    | some panic =>
      rw [Scope.call_broken hf hran] at hcall
      cases hcall
      have hend : Agree (.error panic) (.ok (Desk.scope.settle side c desk).1) :=
        fun _ h => nomatch h
      -- in the row the call comes back, and its removal stands behind the calls inside it
      refine (follows_reached h hf hend).comp fun flat h => ?_
      rw [← List.append_nil (Reply.endingsAll _)]
      exact (hinner flat _ h).comp fun flat h => follows_undo h side c panic

/-- **One script.** Its calls in a row do what it does. -/
theorem follows_run (script : Script) (hcalls : script.onlyCalls = true) :
    ∀ flat desk : Desk D, flat.Alike Happening.real? desk →
      Follows (Reply.rowAll (script.run desk).1) flat (Reply.endingsAll (script.run desk).1)
        (script.run desk).2 := by
  induction script with
  | done => exact fun flat desk h => .id h
  | enquire | command => cases hcalls
  | call side c inner panic next ihinner ihnext =>
    intro flat desk h
    obtain ⟨hinner, hnext⟩ := Bool.and_eq_true_iff.mp hcalls
    rw [run_call]
    rcases hcall : Desk.scope.call side c (inner.primitive side c panic) desk with
      ⟨⟨ended, yield⟩, desk'⟩
    have hreply := (follows_reply h (ihinner hinner) hcall).conclude c.lock
    exact hreply.comp fun flat h => ihnext hnext flat _ h

end Script

/-- The directory is never lent twice, and the calls of a script in a row, from the same desk, do
what the script does. -/
structure Script.RunsAsRow {D : Type} [Inspectable D] (script : Script) (desk : Desk D) : Prop where
  lent : script.lend ⟨desk, false⟩ = some ((script.run desk).1, ⟨(script.run desk).2, false⟩)
  /-- A call that did not break off ends with the same status. -/
  endings : List.Forall₂ Agree (Reply.endingsAll (script.run desk).1)
    (Reply.endingsAll ((Reply.rowAll (script.run desk).1 .done).run desk).1)
  realCalls : ((Reply.rowAll (script.run desk).1 .done).run desk).2.realCalls =
    (script.run desk).2.realCalls
  directory : ((Reply.rowAll (script.run desk).1 .done).run desk).2.directory =
    (script.run desk).2.directory

/-- **Nested calls are calls in a row**, in any kind of directory and whatever it has recorded. -/
theorem Script.run_row {D : Type} [Inspectable D] (script : Script)
    (hcalls : script.onlyCalls = true) (desk : Desk D) : script.RunsAsRow desk := by
  obtain ⟨replies, after, hplays, halike, hendings⟩ :=
    follows_run script hcalls desk desk ⟨rfl, rfl⟩
  have hrow : (Reply.rowAll (script.run desk).1 done).run desk = (replies, after) := by
    rw [hplays done]
    simp only [run, List.append_nil]
  refine ⟨script.lend_eq desk, ?_, ?_, ?_⟩
  · rw [hrow]; exact hendings
  · rw [hrow]; exact halike.seen
  · rw [hrow]; exact halike.directory

/-- A real lock enters another lock, forgets its own strictly, enters it again and breaks off: the
row ends with a removal that takes the second record of the lock. Then the real unlock of the other
lock enters a third one and breaks off, and the row ends there: what it left stays left. -/
theorem Script.run_row_broken :
    let insideLock : Script :=
      .call .lock ⟨⟨2⟩, .reentrant, []⟩ .done none
        (.call .unlock ⟨⟨1⟩, .strict, []⟩ .done none
          (.call .lock ⟨⟨1⟩, .reentrant, []⟩ .done none .done))
    let insideUnlock : Script := .call .lock ⟨⟨3⟩, .strict, []⟩ .done none .done
    let script : Script :=
      .call .lock ⟨⟨1⟩, .strict, [7]⟩ insideLock (some "broken")
        (.call .unlock ⟨⟨2⟩, .reentrant, []⟩ insideUnlock (some "stuck") .done)
    let desk := Desk.start (SlotTable.empty 2)
    script.onlyCalls = true ∧ script.RunsAsRow desk ∧
      Reply.endingsAll (script.run desk).1 =
        [.error "broken", .ok (.acquired .entered), .ok (.released .left),
          .ok (.acquired .entered), .error "stuck", .ok (.acquired .entered)] ∧
      (script.run desk).2.directory.holdings = [⟨⟨3⟩, 1⟩] := by
  intro insideLock insideUnlock script desk
  have hcalls : script.onlyCalls = true := by decide
  exact ⟨hcalls, Script.run_row script hcalls desk, by decide +kernel, by decide +kernel⟩

end LockElision
