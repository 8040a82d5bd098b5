import LockElision.Proofs.Process.Exclusion
import LockElision.Proofs.Process.Parts

/-!
# Directories open to everyone

What a thread is told by the shields that are open to everyone. In one of its two directories it is
told what a finite map would tell it that sees the thread's own calls in that directory, and nothing
else (`Run.converses`). So the answers depend on these calls alone, whatever the thread does in its
other directory and with mutexes, and whatever other threads do (`Run.answers_own`).
-/

namespace LockElision

/-- A shielded call in a directory open to everyone, or a question about what is held there. -/
def Action.isCall (b : Backing) (action : Action) : Bool :=
  action.shared? == some b && action != .sharedUsage

/-- The step is a call of the thread in that directory, or the end of the thread, which the
directory does not outlive. -/
def Deed.isOwn (t : ThreadIx) (b : Backing) (deed : Deed) : Bool :=
  deed.thread == t && (deed.action.isCall b || deed.action == .exit)

namespace Ledger

/-- What a call comes to on a finite map. -/
def serve (capacity : Option Nat) (m : Ledger) : Action → Answer × Ledger
  | .acquire _ lock mode =>
    (.acquired (m.enter capacity lock mode).1, (m.enter capacity lock mode).2)
  | .release _ lock mode => (.released (m.withdraw lock mode).1, (m.withdraw lock mode).2)
  | .rollBack _ lock => (.rolledBack ((m.lookup lock).map (Holding.mk lock)), m.erase lock)
  | .sharedDepth _ lock => (.depth (m.lookup lock), m)
  | .sharedCount _ => (.count m.size, m)
  | .exit => (.exited, ∅)
  | _ => (.pending, m)

/-- What some calls, the newest first, come to on a map that begins empty. -/
def converse (capacity : Option Nat) : List Action → List Answer × Ledger
  | [] => ([], ∅)
  | action :: earlier =>
    let (answers, m) := converse capacity earlier
    let (answer, m) := m.serve capacity action
    (answer :: answers, m)

end Ledger

namespace World

open LawfulDirectory

variable {w : World} {t : ThreadIx} {b : Backing} {action : Action} {s : Step}

/-- A step in which a thread uses one of its directories open to everyone, which then stands for
`l`; nothing else about any thread's directories of that kind changes. -/
structure Uses (w : World) (t : ThreadIx) (b : Backing) (l : Ledger) (w' : World) : Prop where
  becomes : (w.threads t).shared.Becomes (w'.threads t).shared b l
  others : ∀ t', t' ≠ t → (w'.threads t').shared = (w.threads t').shared

theorem uses_law {α : Type} {f : {D : Type} → [Inspectable D] → D → α × D} {g : α → Answer}
    {reply : Answer} {l : Ledger} (hs : (w.threads t).shared.Sound)
    (hf : ∀ {D : Type} [Inspectable D] [LawfulDirectory D] (d : D), Sound d →
      Directory.capacity d = b.capacity → Directory.ledger d = (w.threads t).shared.ledger b →
      g (f d).1 = reply ∧ LockElision.Becomes (Sound (D := D)) d (f d).2 l) :
    let r := w.useShared t b f
    g r.1 = reply ∧ w.Uses t b l (w.setThread t r.2) := by
  intro r
  have hlaw := Shelf.use_law (P := fun a => g a = reply) w.newPooled hs
    (PooledDirectory.sound_create ..).1 (PooledDirectory.ledger_create ..) hf
  refine ⟨hlaw.1, ?_, fun t' hne => ?_⟩
  · rw [threads_setThread_self]; exact hlaw.2
  · rw [threads_setThread_ne hne]

/-- **One use** of a directory does to it what it would do to the map that the directory stands for,
and a call is answered from that map. -/
theorem start_serves (hs : (w.threads t).shared.Sound) (hb : action.shared? = some b)
    (h : w.start t action = some s) :
    let r := ((w.threads t).shared.ledger b).serve b.capacity action
    (action ≠ .sharedUsage → s.answer = r.1) ∧ w.Uses t b r.2 s.world := by
  intro r
  cases action with
  | acquire b lock mode =>
    obtain rfl := Option.some.inj hb
    obtain rfl := Option.some.inj h
    refine (uses_law (g := fun a : AcquireStatus × Option Exhaustion => .acquired a.1)
      (f := fun d =>
        let r := admission d lock mode
        ((r.1, r.2.2), r.2.1)) hs fun d hd hcap hl => ?_).imp_left fun h _ => h
    have h := admission_law hd lock mode
    rw [hl, hcap] at h
    exact ⟨congrArg Answer.acquired h.1, h.2⟩
  | release b lock mode =>
    obtain rfl := Option.some.inj hb
    obtain rfl := Option.some.inj h
    refine (uses_law (g := .released) (f := fun d => withdrawal d lock mode) hs
      fun d hd _ hl => ?_).imp_left fun h _ => h
    have h := withdrawal_law hd lock mode
    rw [hl] at h
    exact ⟨congrArg Answer.released h.1, h.2⟩
  | rollBack b lock =>
    obtain rfl := Option.some.inj hb
    obtain rfl := Option.some.inj h
    refine (uses_law (g := .rolledBack) (f := fun d => LockElision.rollBack d lock) hs
      fun d hd _ hl => ?_).imp_left fun h _ => h
    have h := rollBack_law hd lock
    rw [hl] at h
    exact ⟨congrArg Answer.rolledBack h.1, h.2⟩
  | sharedDepth b lock =>
    obtain rfl := Option.some.inj hb
    obtain rfl := Option.some.inj h
    refine (uses_law (g := .depth)
      (f := fun d => ((Directory.find? d lock).map Holding.depth, d)) hs
      fun d hd _ hl => ⟨?_, hd, rfl, hl⟩).imp_left fun h _ => h
    rw [← lookup_ledger hd, hl]
    rfl
  | sharedCount b =>
    obtain rfl := Option.some.inj hb
    obtain rfl := Option.some.inj h
    refine (uses_law (g := .count) (f := fun d => (Directory.size d, d)) hs
      fun d hd _ hl => ⟨?_, hd, rfl, hl⟩).imp_left fun h _ => h
    rw [size_ledger hd, hl]
    rfl
  | sharedUsage =>
    obtain rfl := Option.some.inj hb
    obtain rfl := Option.some.inj h
    exact (uses_law (g := fun _ => r.1) (f := fun d => (Inspectable.usage? d, d)) hs
      fun d hd _ hl => ⟨rfl, hd, rfl, hl⟩).imp_left fun _ hne => absurd rfl hne
  | _ => cases hb

theorem shared_setThread {th : Thread} (h : th.shared = (w.threads t).shared) (t' : ThreadIx) :
    ((w.setThread t th).threads t').shared = (w.threads t').shared := by
  by_cases he : t' = t
  · rw [he, threads_setThread_self, h]
  · rw [threads_setThread_ne he]

theorem step_shared_eq (hb : action.shared? = none) (hexit : action ≠ .exit)
    (h : w.step t action = some s) (t' : ThreadIx) :
    (s.world.threads t').shared = (w.threads t').shared := by
  rw [step] at h
  split at h
  · simp only [proceed] at h
    repeat' split at h
    all_goals first
      | obtain rfl := Option.some.inj h; exact shared_setThread (by rfl) t'
      | cases h
  · split at h
    · cases action with
      | exit => exact absurd rfl hexit
      | drop key | forget key =>
        cases hg : (w.threads t).guard? key with
        | none => simp [start, hg] at h
        | some m =>
          simp only [start, hg, Option.bind_eq_bind, Option.bind_some] at h
          repeat' split at h
          all_goals obtain rfl := Option.some.inj h; exact shared_setThread (by rfl) t'
      | lock | tryLock | depth =>
        simp only [start] at h
        repeat' split at h
        all_goals obtain rfl := Option.some.inj h; exact shared_setThread (by rfl) t'
      | install | sizing =>
        simp only [start] at h
        repeat' split at h
        all_goals obtain rfl := Option.some.inj h; rfl
      | proceed => cases h
      | _ => cases hb
    · cases h

theorem start_of_step (hb : action.shared? = some b) (h : w.step t action = some s) :
    w.start t action = some s := by
  rw [step, if_neg (by rintro rfl; cases hb)] at h
  split at h
  · exact h
  · cases h

/-- Every thread's directories that are open to everyone are well formed. -/
def SharedSound (w : World) : Prop := ∀ t, (w.threads t).shared.Sound

theorem step_sharedSound (hs : w.SharedSound) (h : w.step t action = some s) :
    s.world.SharedSound := by
  intro t'
  by_cases hexit : action = .exit
  · subst hexit
    obtain ⟨-, -, he⟩ := step_exit h
    rw [he]
    by_cases ht : t' = t
    · rw [ht, threads_setThread_self]; exact Shelf.sound_fresh
    · rw [threads_setThread_ne ht]; exact hs t'
  · cases hb : action.shared? with
    | none => rw [step_shared_eq hb hexit h]; exact hs t'
    | some b =>
      obtain ⟨-, huse⟩ := start_serves (hs t) hb (start_of_step hb h)
      by_cases ht : t' = t
      · rw [ht]; exact huse.becomes.sound
      · rw [huse.others t' ht]; exact hs t'

theorem step_own (hs : w.SharedSound) (h : w.step t action = some s)
    (hown : action.isCall b = true ∨ action = .exit) :
    let r := ((w.threads t).shared.ledger b).serve b.capacity action
    s.answer = r.1 ∧ (s.world.threads t).shared.ledger b = r.2 := by
  intro r
  rcases hown with hcall | rfl
  · obtain ⟨hb, husage⟩ := Bool.and_eq_true_iff.mp hcall
    have hb := beq_iff_eq.mp hb
    obtain ⟨hanswer, huse⟩ := start_serves (hs t) hb (start_of_step hb h)
    exact ⟨hanswer (bne_iff_ne.mp husage), huse.becomes.ledger⟩
  · have hanswer : s.answer = .exited := by
      rw [step, if_neg (by simp)] at h
      simp only [start] at h
      repeat' split at h
      all_goals first
        | obtain rfl := Option.some.inj h; rfl
        | cases h
    obtain ⟨-, -, he⟩ := step_exit h
    rw [he, threads_setThread_self]
    exact ⟨hanswer, Shelf.ledger_fresh b⟩

theorem step_foreign (hs : w.SharedSound) (h : w.step t action = some s) {t' : ThreadIx}
    (hown : Deed.isOwn t' b ⟨w, t, action, s⟩ = false) :
    (s.world.threads t').shared.ledger b = (w.threads t').shared.ledger b := by
  by_cases hexit : action = .exit
  · subst hexit
    obtain ⟨-, -, he⟩ := step_exit h
    have ht : t' ≠ t := fun ht => by simp [Deed.isOwn, ht] at hown
    rw [he, threads_setThread_ne ht]
  · cases hb : action.shared? with
    | none => rw [step_shared_eq hb hexit h]
    | some b' =>
      obtain ⟨-, huse⟩ := start_serves (hs t) hb (start_of_step hb h)
      by_cases ht : t' = t
      · subst ht
        by_cases hbb : b = b'
        · subst hbb
          have husage : action = .sharedUsage := by
            by_contra hne
            simp [Deed.isOwn, Action.isCall, hb, hne] at hown
          rw [huse.becomes.ledger, husage]
          rfl
        · exact huse.becomes.other b hbb
      · rw [huse.others t' ht]

variable {M : Set MutexIx} {hash : LockId → UInt64} {mutexes : MutexIx → LockId × Backing}
  {past : List Deed}

/-- **A thread's calls** in one directory come to what they would come to on a map of their own. -/
theorem Run.converses (h : Run M (initial hash mutexes) past w) : w.SharedSound ∧ ∀ t b,
    Ledger.converse b.capacity ((past.filter (Deed.isOwn t b)).map Deed.action) =
      ((past.filter (Deed.isOwn t b)).map fun deed => deed.result.answer,
        (w.threads t).shared.ledger b) := by
  induction h with
  | begin =>
    exact ⟨fun _ => Shelf.sound_fresh, fun t b => Prod.ext rfl (Shelf.ledger_fresh b).symm⟩
  | @wake past w t _ ih =>
    have hshared : ∀ t', ((w.awaken t).threads t').shared = (w.threads t').shared :=
      shared_setThread rfl
    refine ⟨fun t' => ?_, fun t' b => ?_⟩
    · rw [hshared]; exact ih.1 t'
    · rw [hshared]; exact ih.2 t' b
  | @step past w t action s _ _ hs ih =>
    refine ⟨step_sharedSound ih.1 hs, fun t' b => ?_⟩
    cases hown : Deed.isOwn t' b ⟨w, t, action, s⟩ with
    | true =>
      obtain ⟨ht, haction⟩ := Bool.and_eq_true_iff.mp hown
      obtain rfl : t = t' := beq_iff_eq.mp ht
      obtain ⟨hanswer, hledger⟩ := step_own ih.1 hs
        ((Bool.or_eq_true_iff.mp haction).imp_right beq_iff_eq.mp)
      rw [List.filter_cons_of_pos hown, List.map_cons, List.map_cons, Ledger.converse, ih.2 t b,
        hanswer, hledger]
    | false =>
      rw [List.filter_cons_of_neg (by simp [hown]), step_foreign ih.1 hs hown]
      exact ih.2 t' b

/-- So they are answered the same in any two runs, of any two processes, in which they are the
same. -/
theorem Run.answers_own {M' : Set MutexIx} {hash' : LockId → UInt64}
    {mutexes' : MutexIx → LockId × Backing} {past' : List Deed} {w' : World}
    (h : Run M (initial hash mutexes) past w) (h' : Run M' (initial hash' mutexes') past' w')
    (hsame : (past.filter (Deed.isOwn t b)).map Deed.action =
      (past'.filter (Deed.isOwn t b)).map Deed.action) :
    ((past.filter (Deed.isOwn t b)).map fun deed => deed.result.answer) =
      (past'.filter (Deed.isOwn t b)).map fun deed => deed.result.answer := by
  have hw := h.converses.2 t b
  rw [hsame, h'.converses.2 t b] at hw
  exact (congrArg Prod.fst hw).symm

end World

end LockElision
