import LockElision.Proofs.Process.Run

/-!
# Sessions are runs

A session does nothing but take steps of the machine: running a closure under a mutex is a `lock`
with a guard kept by the call, the steps of the closure, and a `drop` of that guard, whether the
closure returned or broke off. So what holds in every world a run reaches holds after a session.
-/

namespace LockElision

/-- The mutex an operation of a session names. -/
def SessionAct.mutex? : SessionAct → Option MutexIx
  | lock m _ | tryLock m _ | depth m | held m | inspect m => some m
  | _ => none

/-- A session uses only mutexes of `M`. -/
def SessionScript.Uses (M : Set MutexIx) : SessionScript → Prop
  | done => True
  | act _ a next => (∀ m, a.mutex? = some m → m ∈ M) ∧ next.Uses M
  | within _ m _ closure _ next => m ∈ M ∧ closure.Uses M ∧ next.Uses M

namespace World

variable {M : Set MutexIx} {start w : World} {t : ThreadIx} {action : Action}

def Reached (M : Set MutexIx) (start w : World) : Prop := ∃ past, Run M start past w

theorem Reached.step (h : Reached M start w) (ha : ∀ m, action.mutex? = some m → m ∈ M) {s : Step}
    (hs : w.step t action = some s) : Reached M start s.world := by
  obtain ⟨past, hrun⟩ := h
  exact ⟨_, hrun.step ha hs⟩

theorem Reached.wake (h : Reached M start w) (t : ThreadIx) : Reached M start (w.awaken t) := by
  obtain ⟨past, hrun⟩ := h
  exact ⟨past, hrun.wake t⟩

theorem Reached.onward {s s' : Step} (h : Reached M start s.world)
    (hs : perform.onward t s = some s') : Reached M start s'.world := by
  rw [perform.onward] at hs
  split at hs
  · obtain ⟨next, hnext, rfl⟩ := Option.map_eq_some_iff.mp hs
    have hnamed : ∀ m, Action.proceed.mutex? = some m → m ∈ M := fun _ h => nomatch h
    have hworld := h.step hnamed hnext
    exact hworld
  · obtain rfl := Option.some.inj hs
    exact h

theorem Reached.perform (h : Reached M start w) (ha : ∀ m, action.mutex? = some m → m ∈ M)
    {s : Step} (hs : w.perform t action = some s) : Reached M start s.world := by
  obtain ⟨first, hfirst, hs⟩ := Option.bind_eq_some_iff.mp hs
  obtain ⟨second, hsecond, hs⟩ := Option.bind_eq_some_iff.mp hs
  exact ((h.step ha hfirst).onward hsecond).onward hs

theorem Reached.carryOut (h : Reached M start w) (t : ThreadIx) (action : Action)
    (reply : Answer → SessionReply) (ha : ∀ m, action.mutex? = some m → m ∈ M) :
    Reached M start (w.carryOut t action reply).2.1 := by
  rw [World.carryOut]
  split
  · exact h.perform ha ‹_›
  · exact h

theorem Reached.finish (h : Reached M start w) (t : ThreadIx) :
    Reached M start (w.finish t).1 := by
  rw [World.finish]
  -- the guards are dropped one after another
  refine Reached.carryOut (List.foldlRecOn
    (motive := fun p : World × List Event => Reached M start p.1) _ _ h fun p hp key _ => ?_)
    t .exit (fun _ => .flag true) fun _ h => nomatch h
  exact hp.carryOut t (.drop key) (fun _ => .flag true) fun _ h => nomatch h

theorem Reached.act (h : Reached M start w) {a : SessionAct}
    (ha : ∀ m, a.mutex? = some m → m ∈ M) (t : ThreadIx) :
    Reached M start (w.act t a).2.1 := by
  cases a with
  | lock m slot =>
    rw [World.act]
    split
    · exact h
    · split
      · exact h
      · exact h.carryOut t (.lock m (.slot slot)) _ ha
  | tryLock m slot =>
    rw [World.act]
    split
    · exact h
    · exact h.carryOut t (.tryLock m (.slot slot)) _ ha
  | drop slot | forget slot =>
    rw [World.act]
    split
    · exact h.carryOut t _ _ fun _ h => nomatch h
    · exact h
  | depth m | held m | inspect m => exact h.carryOut t (.depth m) _ ha
  | guard slot => exact h
  | exit =>
    rw [World.act]
    split
    · exact h.finish t
    · exact h
  | acquire | release | count | heldCount | usage => exact h.carryOut t _ _ fun _ h => nomatch h

end World

open World in
/-- **A session is a run**: it ends in a world that some run reaches. -/
theorem SessionScript.play_reached {M : Set MutexIx} {start : World} (script : SessionScript) :
    ∀ (depth : Nat) (w : World), script.Uses M → Reached M start w →
      Reached M start (script.play depth w).2 := by
  induction script with
  | done => exact fun _ _ _ h => h
  | act t a next ih =>
    intro depth w hu h
    have hw : Reached M start (if a = .exit then w else w.awaken t) := by
      split
      · exact h
      · exact h.wake t
    exact ih depth _ hu.2 (hw.act hu.1 t)
  | within t m slot closure panic next ihClosure ihNext =>
    intro depth w hu h
    have hw := h.wake t
    have hlock := hw.carryOut t (.lock m (.frame depth)) (entered m) fun m' hm' =>
      Option.some.inj hm' ▸ hu.1
    rw [play]
    by_cases hbusy : (slot.any fun n => (((w.awaken t).threads t).guard? (.slot n)).isSome) = true
    · simp only [hbusy, if_true]
      exact ihNext depth _ hu.2.2 hw
    by_cases hwait : (w.awaken t).wouldWait t m = true
    · simp only [hbusy, hwait, if_true]
      exact ihNext depth _ hu.2.2 hw
    simp only [hbusy, hwait]
    generalize (w.awaken t).carryOut t (.lock m (.frame depth)) (entered m) = entry at hlock ⊢
    obtain ⟨reply, w', events⟩ := entry
    cases reply with
    | locked =>
      have hclosure := ihClosure (depth + 1) w' hu.2.1 hlock
      exact ihNext depth _ hu.2.2 (hclosure.carryOut t (.drop (.frame depth)) (fun _ => .flag true)
        fun _ h => nomatch h)
    | _ => exact ihNext depth w' hu.2.2 hlock

end LockElision
