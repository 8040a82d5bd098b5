import LockElision.Proofs.Process.Run

/-!
# Mutual exclusion

A raw lock is claimed by each thread that holds it and, once a thread ended as its owner, by nobody
that could ever give it back. In every world that is reached the raw lock is taken exactly if it is
claimed, and no two claim it (`Kept`).
-/

namespace LockElision

namespace World

variable {M : Set MutexIx} {w w' : World} {t : ThreadIx} {m : MutexIx} {lost : Prop}

/-- Who claims the raw lock: a thread, or `none` for a thread that is no more. -/
def Claims (w : World) (m : MutexIx) (lost : Prop) : Option ThreadIx → Prop
  | some t => (w.stand t m).Holds
  | none => lost

structure Kept (w : World) (m : MutexIx) (lost : Prop) : Prop where
  settled : ∀ t, (w.stand t m).Settled
  locked : (w.mutexes m).locked = true ↔ ∃ c, w.Claims m lost c
  single : ∀ c c', w.Claims m lost c → w.Claims m lost c' → c = c'

theorem Moved.stand_ne (h : w.Moved M t w') {t' : ThreadIx} (hne : t' ≠ t) (m : MutexIx) :
    w'.stand t' m = w.stand t' m := by
  rw [stand, stand, h.others t' hne, Thread.stand_congr (h.identity m).1 (h.identity m).2]

theorem Moved.kept (h : w.Moved M t w') (hm : m ∈ M) (hk : w.Kept m lost) : w'.Kept m lost := by
  have hothers : ∀ c, c ≠ some t → (w'.Claims m lost c ↔ w.Claims m lost c) := by
    intro c hne
    cases c with
    | none => exact Iff.rfl
    | some t' => rw [Claims, Claims, h.stand_ne fun he => hne (congrArg some he)]
  have hsplit : ∀ u : World, (∃ c, u.Claims m lost c) ↔
      (u.stand t m).Holds ∨ ∃ c, c ≠ some t ∧ u.Claims m lost c := by
    intro u
    constructor
    · rintro ⟨c, hc⟩
      by_cases he : c = some t
      · subst he; exact .inl hc
      · exact .inr ⟨c, he, hc⟩
    · rintro (hc | ⟨c, -, hc⟩)
      · exact ⟨some t, hc⟩
      · exact ⟨c, hc⟩
  have hrest : (∃ c, c ≠ some t ∧ w'.Claims m lost c) ↔ ∃ c, c ≠ some t ∧ w.Claims m lost c :=
    exists_congr fun c => and_congr_right (hothers c)
  have hone : (w.stand t m).Holds → ¬ ∃ c, c ≠ some t ∧ w.Claims m lost c := by
    rintro ht ⟨c, hne, hc⟩
    exact hne (hk.single c (some t) hc ht)
  obtain ⟨hlocked, hone'⟩ :=
    (h.turn m hm).claims (hk.settled t) (hk.locked.trans (hsplit w)) hone
  refine ⟨fun t' => ?_, ?_, ?_⟩
  · by_cases he : t' = t
    · rw [he]; exact (h.turn m hm).settled (hk.settled t)
    · rw [h.stand_ne he]; exact hk.settled t'
  · rw [hlocked, hsplit w', hrest]
  · intro c c' hc hc'
    by_cases he : c = some t <;> by_cases he' : c' = some t
    · rw [he, he']
    · subst he; exact absurd ⟨c', he', (hothers c' he').mp hc'⟩ (hone' hc)
    · subst he'; exact absurd ⟨c, he, (hothers c he).mp hc⟩ (hone' hc')
    · exact hk.single c c' ((hothers c he).mp hc) ((hothers c' he').mp hc')

@[simp] theorem stand_fresh (mx : Mutex) (m : MutexIx) :
    Thread.fresh.stand mx m = ⟨0, 0, .away⟩ := by
  refine Thread.stand_eq (o := none) ?_
  show (Shelf.fresh.ledger mx.backing).lookup mx.lock = none
  rw [Shelf.ledger_fresh, Finmap.lookup_empty]

/-- What a thread holds when it ends is claimed for ever. -/
theorem Kept.exit (hk : w.Kept m lost) (t : ThreadIx) :
    (w.setThread t Thread.fresh).Kept m (lost ∨ (w.stand t m).Holds) := by
  have hself : ¬ (w.setThread t Thread.fresh).Claims m (lost ∨ (w.stand t m).Holds) (some t) := by
    rw [Claims, stand_setThread, stand_fresh]
    exact Nat.lt_irrefl 0
  have hne : ∀ {t'}, t' ≠ t → (w.setThread t Thread.fresh).stand t' m = w.stand t' m := by
    intro t' ht
    rw [stand, threads_setThread_ne ht]; rfl
  -- a claim after the end was one before, if perhaps another one's
  have horigin : ∀ c, (w.setThread t Thread.fresh).Claims m (lost ∨ (w.stand t m).Holds) c →
      w.Claims m lost c ∨ (c = none ∧ w.Claims m lost (some t)) := by
    intro c hc
    cases c with
    | none => exact hc.imp id fun h => ⟨rfl, h⟩
    | some t' =>
      by_cases ht : t' = t
      · subst ht; exact absurd hc hself
      · rw [Claims, hne ht] at hc; exact .inl hc
  refine ⟨fun t' => ?_, hk.locked.trans ⟨?_, ?_⟩, fun c c' hc hc' => ?_⟩
  · by_cases ht : t' = t
    · rw [ht, stand_setThread, stand_fresh]; rfl
    · rw [hne ht]; exact hk.settled t'
  · rintro ⟨_ | t', hc⟩
    · exact ⟨none, .inl hc⟩
    · by_cases ht : t' = t
      · subst ht; exact ⟨none, .inr hc⟩
      · exact ⟨some t', by rw [Claims, hne ht]; exact hc⟩
  · rintro ⟨c, hc⟩
    rcases horigin c hc with h | ⟨-, h⟩
    · exact ⟨c, h⟩
    · exact ⟨some t, h⟩
  · rcases horigin c hc with h | ⟨rfl, h⟩ <;> rcases horigin c' hc' with h' | ⟨rfl, h'⟩
    · exact hk.single c c' h h'
    · exact absurd (hk.single c (some t) h h' ▸ hc) hself
    · exact absurd (hk.single c' (some t) h' h ▸ hc') hself
    · rfl

/-! ## Runs -/

variable {hash : LockId → UInt64} {mutexes : MutexIx → LockId × Backing} {past : List Deed}

theorem regular_initial (hids : Set.InjOn (fun m => (mutexes m).1) M) :
    (initial hash mutexes).Regular M :=
  ⟨hids, fun _ => Shelf.sound_fresh, fun _ _ _ => ⟨rfl, rfl⟩, fun _ _ => rfl⟩

theorem kept_initial : (initial hash mutexes).Kept m (Abandoned [] m) := by
  have hnone : ∀ c, ¬ (initial hash mutexes).Claims m (Abandoned [] m) c := by
    rintro (_ | t)
    · rintro ⟨_, hd, -⟩; cases hd
    · rw [Claims, stand, initial, stand_fresh]; exact Nat.lt_irrefl 0
  refine ⟨fun t => ?_, ⟨fun h => ?_, fun h => h.elim fun c h => absurd h (hnone c)⟩,
    fun c _ h => absurd h (hnone c)⟩
  · rw [stand, initial, stand_fresh]; rfl
  · cases h

theorem awaken_moved (hr : w.Regular M) (t : ThreadIx) : w.Moved M t (w.awaken t) :=
  .alike hr ⟨rfl, hr.sound t, fun _ _ => rfl, fun _ => rfl, rfl⟩

/-- Ending as an owner is ending while holding the raw lock: a thread ends between operations. -/
theorem owns_iff_holds (hr : w.Regular M) (hk : w.Kept m lost)
    (hi : (w.threads t).stage = .idle) : w.Owns t m ↔ (w.stand t m).Holds := by
  have hphase : (w.stand t m).phase = .away := by rw [stand, Thread.stand, hi]; rfl
  rw [owns_iff (hr.sound t) (hk.settled t), (hk.settled t).holds_iff, hphase]
  simp

/-- **Along every run** each mutex in use is claimed once or not at all. -/
theorem Run.kept (hids : Set.InjOn (fun m => (mutexes m).1) M)
    (h : Run M (initial hash mutexes) past w) :
    w.Regular M ∧ ∀ m ∈ M, w.Kept m (Abandoned past m) := by
  induction h with
  | begin => exact ⟨regular_initial hids, fun m _ => kept_initial⟩
  | wake t _ ih =>
    have hmoved := awaken_moved ih.1 t
    exact ⟨hmoved.regular, fun m hm => hmoved.kept hm (ih.2 m hm)⟩
  | @step past w t action s _ hm hs ih =>
    obtain ⟨hr, hk⟩ := ih
    by_cases hexit : action = .exit
    · subst hexit
      obtain ⟨hi, -, hworld⟩ := step_exit hs
      rw [hworld]
      refine ⟨hr.exit t, fun m hm => ?_⟩
      have hlost : Abandoned (⟨w, t, .exit, s⟩ :: past) m =
          (Abandoned past m ∨ (w.stand t m).Holds) := by
        rw [abandoned_cons, owns_iff_holds hr (hk m hm) hi]
        simp [or_comm]
      rw [hlost]
      exact (hk m hm).exit t
    · have hmoved := step_moved hr hm hexit hs
      refine ⟨hmoved.regular, fun m hm => ?_⟩
      have hlost : Abandoned (⟨w, t, action, s⟩ :: past) m = Abandoned past m := by
        rw [abandoned_cons]
        simp [hexit]
      rw [hlost]
      exact hmoved.kept hm (hk m hm)

theorem running_of_holds (hr : w.Regular M) (h : (w.stand t m).Holds) :
    (w.threads t).running = true := by
  refine hr.running fun he => ?_
  rw [stand, he, stand_fresh] at h
  exact Nat.lt_irrefl 0 h

theorem holds_cases (hr : w.Regular M) (hk : w.Kept m lost) (h : (w.stand t m).Holds) :
    w.Owns t m ∨ w.Midway t m := by
  obtain ⟨-, hrecording, hundoing, hleaving⟩ := Stage.phase_eq (w.threads t).stage m
  rcases (hk.settled t).holds_iff.mp h with hg | hp | hp | hp
  · exact .inl ((owns_iff (hr.sound t) (hk.settled t)).mpr hg)
  · obtain ⟨key, hkey⟩ := hrecording.mp hp
    by_cases hrec : w.Records t m
    · exact .inl ⟨hrec, fun _ he => by rw [hkey] at he; cases he⟩
    · exact .inr (.inl ⟨⟨key, hkey⟩, hrec⟩)
  · exact .inr (.inr (.inl (hundoing.mp hp)))
  · exact .inr (.inr (.inr (hleaving.mp hp)))

theorem Owns.holds (hr : w.Regular M) (hk : w.Kept m lost) (h : w.Owns t m) :
    (w.stand t m).Holds :=
  (hk.settled t).holds_iff.mpr (.inl ((owns_iff (hr.sound t) (hk.settled t)).mp h))

theorem Midway.holds (hk : w.Kept m lost) (h : w.Midway t m) : (w.stand t m).Holds := by
  obtain ⟨-, hrecording, hundoing, hleaving⟩ := Stage.phase_eq (w.threads t).stage m
  refine (hk.settled t).holds_iff.mpr (.inr ?_)
  exact h.imp (fun h => hrecording.mpr h.1) (.imp hundoing.mpr hleaving.mpr)

/-- The raw lock is taken, and if anybody owns the mutex or is midway, it is this thread: the raw
lock is the thread's own to give back. -/
structure HasRaw (w : World) (t : ThreadIx) (m : MutexIx) : Prop where
  locked : (w.mutexes m).locked = true
  alone : ∀ t', w.Owns t' m ∨ w.Midway t' m → t' = t

theorem hasRaw_of_holds (hr : w.Regular M) (hk : w.Kept m lost)
    (h : (w.stand t m).Holds) : w.HasRaw t m := by
  refine ⟨hk.locked.mpr ⟨some t, h⟩, fun t' ht' => ?_⟩
  have hholds : (w.stand t' m).Holds := ht'.elim (Owns.holds hr hk) (Midway.holds hk)
  exact Option.some.inj (hk.single (some t') (some t) hholds h)

/-- A raw lock is only given back by the thread that has it: while a thread is midway the raw lock
is taken, nobody owns the mutex, and nobody else is midway. -/
theorem Run.midway_alone (hids : Set.InjOn (fun m => (mutexes m).1) M)
    (h : Run M (initial hash mutexes) past w) (hm : m ∈ M) (hmid : w.Midway t m) :
    (w.mutexes m).locked = true ∧ ¬ Abandoned past m ∧ (∀ t', w.Midway t' m → t' = t) ∧
      ∀ t', w.Owns t' m → t' = t := by
  obtain ⟨hr, hk⟩ := h.kept hids
  have hk := hk m hm
  have hclaim : w.Claims m (Abandoned past m) (some t) := hmid.holds hk
  have hraw := hasRaw_of_holds hr hk hclaim
  refine ⟨hraw.locked, fun hlost => ?_, fun t' h => hraw.alone t' (.inr h),
    fun t' h => hraw.alone t' (.inl h)⟩
  cases hk.single none (some t) hlost hclaim

/-- **Mutual exclusion.** However threads interleave, a mutex has at most one owner; an owned mutex
has its raw lock taken; and a raw lock is taken only for the one running thread that owns the mutex,
for a running thread midway, or for one that ended as the owner, its guards forgotten. -/
theorem Run.mutual_exclusion (hids : Set.InjOn (fun m => (mutexes m).1) M)
    (h : Run M (initial hash mutexes) past w) (hm : m ∈ M) :
    (∀ t t', w.Owns t m → w.Owns t' m → t = t') ∧
    (∀ t, w.Owns t m → (w.mutexes m).locked = true) ∧
    ((w.mutexes m).locked = true →
      (∃! t, (w.threads t).running = true ∧ w.Owns t m) ∨
      (∃ t, (w.threads t).running = true ∧ w.Midway t m) ∨ Abandoned past m) := by
  obtain ⟨hr, hk⟩ := h.kept hids
  have hk := hk m hm
  have hsingle : ∀ t t', w.Owns t m → w.Owns t' m → t = t' := fun t t' ho ho' =>
    Option.some.inj (hk.single (some t) (some t') (ho.holds hr hk) (ho'.holds hr hk))
  refine ⟨hsingle, fun t ho => hk.locked.mpr ⟨some t, ho.holds hr hk⟩, fun hlocked => ?_⟩
  obtain ⟨c, hc⟩ := hk.locked.mp hlocked
  cases c with
  | none => exact .inr (.inr hc)
  | some t =>
    have hrun := running_of_holds hr hc
    rcases holds_cases hr hk hc with ho | hmid
    · exact .inl ⟨t, ⟨hrun, ho⟩, fun t' h => hsingle t' t h.2 ho⟩
    · exact .inr (.inl ⟨t, hrun, hmid⟩)

/-- Thread 0 locks a mutex twice; thread 1 tries it in between, and in vain. -/
theorem Run.mutual_exclusion_contended :
    let mutexes : MutexIx → LockId × Backing := fun m => (⟨UInt64.ofNat m⟩, .bounded)
    ∃ past w, Run {5} (initial (fun _ => 0) mutexes) past w ∧
      (∀ t t', w.Owns t 5 → w.Owns t' 5 → t = t') ∧ (w.mutexes 5).locked = true ∧
      ((∃! t, (w.threads t).running = true ∧ w.Owns t 5) ∨
        (∃ t, (w.threads t).running = true ∧ w.Midway t 5) ∨ Abandoned past 5) := by
  intro mutexes
  have h₀ : Run {5} (initial (fun _ => 0) mutexes) [] _ := .begin
  have h₁ := h₀.step (by rintro _ ⟨⟩; rfl) (rfl : World.step _ 0 (.lock 5 (.slot 0)) = some _)
  have h₂ := h₁.step (by rintro _ ⟨⟩) (rfl : World.step _ 0 .proceed = some _)
  have h₃ := h₂.step (by rintro _ ⟨⟩; rfl) (rfl : World.step _ 1 (.tryLock 5 (.slot 0)) = some _)
  have h₄ := h₃.step (by rintro _ ⟨⟩; rfl) (rfl : World.step _ 0 (.lock 5 (.slot 1)) = some _)
  obtain ⟨hsingle, -, hwhy⟩ := h₄.mutual_exclusion (Set.injOn_singleton ..) (Set.mem_singleton 5)
  exact ⟨_, _, h₄, hsingle, rfl, hwhy rfl⟩

end World

end LockElision
