import LockElision.Proofs.Process.Parts
import LockElision.Proofs.Process.Shared

/-!
# Nothing passes between the parts

Mutexes and the shields that are open to everyone use one engine and may use the same identities,
but never one directory. So the steps about some parts of the world, taken out of any run with all
the others left out, are a run again, and each of them comes out as it did (`Run.unaffected`): with
the same answer and announcements, and with the same raw locks, raw calls, guards and directories
in those parts. `Run.parts_apart` says it of the parts a user can tell apart.

The end of a thread and the pool setting belong to no part, and are never left out.
-/

namespace LockElision

variable {keep : Part → Bool}

namespace World

variable {w v : World} {t : ThreadIx} {m : MutexIx} {key : GuardKey} {s : Step} {action : Action}

section Directories

variable {α : Type} {b : Backing}

theorem useGuarded_echo (h : w.Echoes keep v) (t : ThreadIx) (hb : keep (.mutexes b) = true)
    (f : {D : Type} → [Inspectable D] → D → α × D) :
    ∃ a th th', w.useGuarded t b f = (a, th) ∧ v.useGuarded t b f = (a, th') ∧
      th.Echoes keep (w.sees keep) t th' ∧ th.guards = (w.threads t).guards := by
  obtain ⟨ha, hshelf⟩ := Shelf.use_congr w.newPooled f ((h.threads t).guarded b hb)
  refine ⟨_, _, _, rfl, Prod.ext ?_ rfl, ?_, rfl⟩
  · exact h.newPooled ▸ ha
  · refine ⟨(h.threads t).shared, fun b' hb' => ?_, (h.threads t).guards, (h.threads t).forgotten,
      (h.threads t).stage⟩
    show ((v.threads t).guarded.use v.newPooled b f).2.directory b' = _
    rw [h.newPooled]
    by_cases he : b' = b
    · rw [he]; exact hshelf
    · rw [Shelf.use_directory_ne _ _ he, (h.threads t).guarded b' hb']
      exact (Shelf.use_directory_ne _ _ he).symm

theorem useShared_echo (h : w.Echoes keep v) (hb : keep (.shared t b) = true)
    (f : {D : Type} → [Inspectable D] → D → α × D) :
    ∃ a th th', w.useShared t b f = (a, th) ∧ v.useShared t b f = (a, th') ∧
      th.Echoes keep (w.sees keep) t th' := by
  obtain ⟨ha, hshelf⟩ := Shelf.use_congr w.newPooled f ((h.threads t).shared b hb)
  refine ⟨_, _, _, rfl, Prod.ext ?_ rfl, ?_⟩
  · exact h.newPooled ▸ ha
  · refine ⟨fun b' hb' => ?_, (h.threads t).guarded, (h.threads t).guards, (h.threads t).forgotten,
      (h.threads t).stage⟩
    show ((v.threads t).shared.use v.newPooled b f).2.directory b' = _
    rw [h.newPooled]
    by_cases he : b' = b
    · rw [he]; exact hshelf
    · rw [Shelf.use_directory_ne _ _ he, (h.threads t).shared b' hb']
      exact (Shelf.use_directory_ne _ _ he).symm

theorem useGuarded_unseen (h : w.Echoes keep v) (t : ThreadIx) (hb : keep (.mutexes b) = false)
    (f : {D : Type} → [Inspectable D] → D → α × D) :
    (w.useGuarded t b f).2.Echoes keep (w.sees keep) t (v.threads t) := by
  refine ⟨(h.threads t).shared, fun b' hb' => ?_, (h.threads t).guards, (h.threads t).forgotten,
    (h.threads t).stage⟩
  have he : b' ≠ b := fun he => by rw [he, hb] at hb'; cases hb'
  rw [(h.threads t).guarded b' hb']
  exact (Shelf.use_directory_ne _ _ he).symm

theorem useShared_unseen (h : w.Echoes keep v) (hb : keep (.shared t b) = false)
    (f : {D : Type} → [Inspectable D] → D → α × D) :
    (w.useShared t b f).2.Echoes keep (w.sees keep) t (v.threads t) := by
  refine ⟨fun b' hb' => ?_, (h.threads t).guarded, (h.threads t).guards, (h.threads t).forgotten,
    (h.threads t).stage⟩
  have he : b' ≠ b := fun he => by rw [he, hb] at hb'; cases hb'
  rw [(h.threads t).shared b' hb']
  exact (Shelf.use_directory_ne _ _ he).symm

theorem recordGuard_unseen (h : w.Echoes keep v) (t : ThreadIx) (hm : w.sees keep m = false) :
    (w.recordGuard t m).2.Echoes keep (w.sees keep) t (v.threads t) :=
  useGuarded_unseen h t hm _

theorem guardDepth_unseen (h : w.Echoes keep v) (t : ThreadIx) (hm : w.sees keep m = false) :
    (w.guardDepth t m).2.Echoes keep (w.sees keep) t (v.threads t) :=
  useGuarded_unseen h t hm _

theorem recordGuard_echo (h : w.Echoes keep v) (t : ThreadIx) (hm : w.sees keep m = true) :
    ∃ a th th', w.recordGuard t m = (a, th) ∧ v.recordGuard t m = (a, th') ∧
      th.Echoes keep (w.sees keep) t th' ∧ th.guards = (w.threads t).guards := by
  rw [recordGuard, recordGuard, h.mutexes m hm]
  exact useGuarded_echo h t hm _

theorem guardDepth_echo (h : w.Echoes keep v) (t : ThreadIx) (hm : w.sees keep m = true) :
    ∃ a th th', w.guardDepth t m = (a, th) ∧ v.guardDepth t m = (a, th') ∧
      th.Echoes keep (w.sees keep) t th' ∧ th.guards = (w.threads t).guards := by
  rw [guardDepth, guardDepth, h.mutexes m hm]
  exact useGuarded_echo h t hm _

end Directories

/-! ## Steps inside the parts -/

theorem lock_echo (h : w.Echoes keep v) (hm : w.sees keep m = true)
    (hs : w.start t (.lock m key) = some s) :
    ∃ s', v.start t (.lock m key) = some s' ∧ s.Echoes keep s' := by
  obtain ⟨⟨status, notice, capacity⟩, th, th', hw, hv, hth, -⟩ := recordGuard_echo h t hm
  simp only [start, hw] at hs
  simp only [start, hv, h.mutexes m hm]
  split at hs
  · obtain rfl := Option.some.inj hs
    exact ⟨_, rfl, h.setThread hth, rfl, rfl⟩
  · obtain rfl := Option.some.inj hs
    exact ⟨_, rfl, h.setThread (hth.begin rfl hm), rfl, rfl⟩
  · obtain rfl := Option.some.inj hs
    exact ⟨_, rfl, h.setThread (hth.hold key hm), rfl, rfl⟩

theorem tryLock_echo (h : w.Echoes keep v) (hm : w.sees keep m = true)
    (hs : w.start t (.tryLock m key) = some s) :
    ∃ s', v.start t (.tryLock m key) = some s' ∧ s.Echoes keep s' := by
  obtain ⟨depth, th, th', hw, hv, hth, -⟩ := guardDepth_echo h t hm
  simp only [start, hw] at hs
  simp only [start, hv, h.mutexes m hm]
  by_cases hdepth : depth.isSome = true
  · rw [if_pos hdepth] at hs ⊢
    obtain rfl := Option.some.inj hs
    exact ⟨_, rfl, h.setThread (hth.begin rfl hm), rfl, rfl⟩
  rw [if_neg hdepth] at hs ⊢
  by_cases hlocked : (w.mutexes m).locked = true
  · rw [if_pos hlocked] at hs ⊢
    obtain rfl := Option.some.inj hs
    exact ⟨_, rfl, h.update rfl hth, rfl, rfl⟩
  · rw [if_neg hlocked] at hs ⊢
    obtain rfl := Option.some.inj hs
    exact ⟨_, rfl, h.update rfl (hth.begin rfl hm), rfl, rfl⟩

theorem drop_echo (h : w.Echoes keep v) (hg : (w.threads t).guard? key = some m)
    (hm : w.sees keep m = true) (hs : w.start t (.drop key) = some s) :
    ∃ s', v.start t (.drop key) = some s' ∧ s.Echoes keep s' := by
  have hg' := (h.threads t).guard? hg hm
  obtain ⟨status, th, th', hw, hv, hth, hguards⟩ := useGuarded_echo h t hm
    fun d => withdrawal d (w.mutexes m).lock .reentrant
  simp only [start, hg, hw, Option.bind_eq_bind, Option.bind_some] at hs
  simp only [start, hg', h.mutexes m hm, hv, Option.bind_eq_bind, Option.bind_some]
  have hguard : th.guard? key = some m := by rw [Thread.guard?, hguards]; exact hg
  have hth := hth.letGo hguard hm
  cases status with
  | left =>
    obtain rfl := Option.some.inj hs
    exact ⟨_, rfl, h.setThread (hth.begin rfl hm), rfl, rfl⟩
  | nested | unbalanced =>
    obtain rfl := Option.some.inj hs
    exact ⟨_, rfl, h.setThread hth, rfl, rfl⟩

theorem forget_echo (h : w.Echoes keep v) (hg : (w.threads t).guard? key = some m)
    (hm : w.sees keep m = true) (hs : w.start t (.forget key) = some s) :
    ∃ s', v.start t (.forget key) = some s' ∧ s.Echoes keep s' := by
  have hg' := (h.threads t).guard? hg hm
  simp only [start, hg, Option.bind_eq_bind, Option.bind_some] at hs
  simp only [start, hg', Option.bind_eq_bind, Option.bind_some]
  obtain rfl := Option.some.inj hs
  have hth := (h.threads t).letGo hg hm
  refine ⟨_, rfl, h.setThread ⟨hth.shared, hth.guarded, hth.guards, ?_, hth.stage⟩, rfl, rfl⟩
  rw [List.filter_cons_of_pos hm, (h.threads t).forgotten]

/-- What a step in a directory that is open to everyone uses, and how, in any world. -/
theorem start_shared {b : Backing} (hb : action.shared? = some b) :
    ∃ (α : Type) (f : (D : Type) → Inspectable D → D → α × D) (answer : α → Answer)
      (events : α → List Event), ∀ (w : World) (t : ThreadIx),
      let r := w.useShared t b fun {D} [Inspectable D] d => f D inferInstance d
      w.start t action = some ⟨w.setThread t r.2, answer r.1, events r.1⟩ := by
  cases action with
  | acquire b lock mode =>
    obtain rfl := Option.some.inj hb
    exact ⟨_, fun D _ d =>
      let r := admission d lock mode
      ((r.1, r.2.2), r.2.1), fun a => .acquired a.1, fun a => noticed a.2, fun _ _ => rfl⟩
  | release b lock mode =>
    obtain rfl := Option.some.inj hb
    exact ⟨_, fun D _ d => withdrawal d lock mode, .released, fun _ => [], fun _ _ => rfl⟩
  | rollBack b lock =>
    obtain rfl := Option.some.inj hb
    exact ⟨_, fun D _ d => LockElision.rollBack d lock, .rolledBack, fun _ => [], fun _ _ => rfl⟩
  | sharedDepth b lock =>
    obtain rfl := Option.some.inj hb
    exact ⟨_, fun D _ d => ((Directory.find? d lock).map Holding.depth, d), .depth, fun _ => [],
      fun _ _ => rfl⟩
  | sharedCount b =>
    obtain rfl := Option.some.inj hb
    exact ⟨_, fun D _ d => (Directory.size d, d), .count, fun _ => [], fun _ _ => rfl⟩
  | sharedUsage =>
    obtain rfl := Option.some.inj hb
    exact ⟨_, fun D _ d => (Inspectable.usage? d, d), .usage, fun _ => [], fun _ _ => rfl⟩
  | _ => cases hb

theorem shared_echo {b : Backing} (h : w.Echoes keep v) (hb : action.shared? = some b)
    (hkeep : keep (.shared t b) = true) (hs : w.start t action = some s) :
    ∃ s', v.start t action = some s' ∧ s.Echoes keep s' := by
  obtain ⟨α, f, answer, events, hstart⟩ := start_shared hb
  obtain ⟨a, th, th', hw, hv, hth⟩ :=
    useShared_echo h hkeep fun {D} [Inspectable D] d => f D inferInstance d
  rw [hstart, hw] at hs
  rw [hstart, hv]
  obtain rfl := Option.some.inj hs
  exact ⟨_, rfl, h.setThread hth, rfl, rfl⟩

theorem start_echo (h : w.Echoes keep v) (hpart : (w.part? t action).all keep = true)
    (hs : w.start t action = some s) :
    ∃ s', v.start t action = some s' ∧ s.Echoes keep s' := by
  cases action with
  | proceed => cases hs
  | lock m key => exact lock_echo h hpart hs
  | tryLock m key => exact tryLock_echo h hpart hs
  | drop key =>
    cases hg : (w.threads t).guard? key with
    | none => simp [start, hg] at hs
    | some m =>
      rw [part?, hg] at hpart
      exact drop_echo h hg hpart hs
  | forget key =>
    cases hg : (w.threads t).guard? key with
    | none => simp [start, hg] at hs
    | some m =>
      rw [part?, hg] at hpart
      exact forget_echo h hg hpart hs
  | exit =>
    simp only [start] at hs ⊢
    split at hs
    · rename_i hempty
      obtain rfl := Option.some.inj hs
      have hempty' : (v.threads t).guards.isEmpty = true := by
        rw [(h.threads t).guards, List.isEmpty_iff.mp hempty]; rfl
      rw [if_pos hempty']
      exact ⟨_, rfl, h.setThread (.fresh ..), rfl, rfl⟩
    · cases hs
  | depth m =>
    obtain ⟨depth, th, th', hw, hv, hth, -⟩ := guardDepth_echo h t hpart
    simp only [start, hw] at hs
    simp only [start, hv]
    obtain rfl := Option.some.inj hs
    exact ⟨_, rfl, h.setThread hth, rfl, rfl⟩
  | acquire | release | rollBack | sharedDepth | sharedCount | sharedUsage =>
    exact shared_echo h rfl hpart hs
  | install sizing =>
    simp only [start] at hs ⊢
    rw [h.setting]
    split at hs
    · obtain rfl := Option.some.inj hs
      exact ⟨_, rfl, h, rfl, rfl⟩
    · split at hs
      · obtain rfl := Option.some.inj hs
        exact ⟨_, rfl, h, rfl, rfl⟩
      · obtain rfl := Option.some.inj hs
        exact ⟨_, rfl, ⟨h.hash, rfl, h.identity, h.mutexes, h.threads⟩, rfl, rfl⟩
  | sizing =>
    obtain rfl := Option.some.inj hs
    exact ⟨_, rfl, h, by rw [inForce, inForce, h.setting], rfl⟩

theorem proceed_echo (h : w.Echoes keep v) (hpart : (w.part? t .proceed).all keep = true)
    (hs : w.proceed t = some s) : ∃ s', v.proceed t = some s' ∧ s.Echoes keep s' := by
  have hstage := (h.threads t).stage
  cases hw : (w.threads t).stage with
  | idle => simp [proceed, hw] at hs
  | taking m key =>
    have hm : w.sees keep m = true := by rw [part?, hw] at hpart; exact hpart
    rw [hw, Stage.seen_of_see rfl hm] at hstage
    simp only [proceed, hw] at hs
    simp only [proceed, hstage, h.mutexes m hm]
    by_cases hlocked : (w.mutexes m).locked = true
    · rw [if_pos hlocked] at hs; cases hs
    · rw [if_neg hlocked] at hs ⊢
      obtain rfl := Option.some.inj hs
      exact ⟨_, rfl, h.update rfl ((h.threads t).hold key hm), rfl, rfl⟩
  | recording m key =>
    have hm : w.sees keep m = true := by rw [part?, hw] at hpart; exact hpart
    rw [hw, Stage.seen_of_see rfl hm] at hstage
    obtain ⟨⟨status, notice, capacity⟩, th, th', hrw, hrv, hth, -⟩ := recordGuard_echo h t hm
    simp only [proceed, hw, hrw] at hs
    simp only [proceed, hstage, hrv]
    by_cases hheld : status.isHeld = true
    · rw [if_pos hheld] at hs ⊢
      obtain rfl := Option.some.inj hs
      exact ⟨_, rfl, h.setThread (hth.hold key hm), rfl, rfl⟩
    · rw [if_neg hheld] at hs ⊢
      obtain rfl := Option.some.inj hs
      exact ⟨_, rfl, h.setThread (hth.begin rfl hm), rfl, rfl⟩
  | undoing m | leaving m =>
    have hm : w.sees keep m = true := by rw [part?, hw] at hpart; exact hpart
    rw [hw, Stage.seen_of_see rfl hm] at hstage
    simp only [proceed, hw, unlockRaw] at hs
    simp only [proceed, hstage, unlockRaw, h.mutexes m hm]
    obtain rfl := Option.some.inj hs
    exact ⟨_, rfl, h.update rfl (h.threads t).finish, rfl, rfl⟩

/-- **A step inside the parts** is possible in the echo too, and the same comes of it. -/
theorem Echoes.step (h : w.Echoes keep v) (hpart : (w.part? t action).all keep = true)
    (hs : w.step t action = some s) : ∃ s', v.step t action = some s' ∧ s.Echoes keep s' := by
  rw [World.step] at hs ⊢
  split at hs
  · rename_i ha
    subst ha
    rw [if_pos rfl]
    exact proceed_echo h hpart hs
  · rename_i ha
    rw [if_neg ha]
    split at hs
    · rename_i hidle
      rw [if_pos (by rw [(h.threads t).stage, hidle]; rfl)]
      exact start_echo h hpart hs
    · cases hs

/-! ## Steps outside the parts -/

theorem lock_unseen (h : w.Echoes keep v) (hidle : (v.threads t).stage = .idle)
    (hm : w.sees keep m = false) (hs : w.start t (.lock m key) = some s) :
    s.world.Echoes keep v := by
  have hth := recordGuard_unseen h t hm
  simp only [start] at hs
  generalize w.recordGuard t m = r at hs hth
  obtain ⟨⟨status, notice, capacity⟩, th⟩ := r
  split at hs
  · obtain rfl := Option.some.inj hs
    exact h.setThread_unseen hth
  · obtain rfl := Option.some.inj hs
    exact h.setThread_unseen (hth.begin_unseen hidle (Stage.seen_of_unseen rfl hm))
  · obtain rfl := Option.some.inj hs
    exact h.setThread_unseen (hth.hold_unseen key hm hidle)

theorem tryLock_unseen (h : w.Echoes keep v) (hidle : (v.threads t).stage = .idle)
    (hm : w.sees keep m = false) (hs : w.start t (.tryLock m key) = some s) :
    s.world.Echoes keep v := by
  have hth := guardDepth_unseen h t hm
  simp only [start] at hs
  generalize w.guardDepth t m = r at hs hth
  obtain ⟨depth, th⟩ := r
  have hseen : Stage.seen (w.sees keep) (.recording m key) = .idle := Stage.seen_of_unseen rfl hm
  have hrecording := hth.begin_unseen hidle hseen
  split at hs
  · obtain rfl := Option.some.inj hs
    exact h.setThread_unseen hrecording
  · split at hs
    · obtain rfl := Option.some.inj hs
      exact h.update_unseen hm rfl rfl hth
    · obtain rfl := Option.some.inj hs
      exact h.update_unseen hm rfl rfl hrecording

theorem drop_unseen (h : w.Echoes keep v) (hidle : (v.threads t).stage = .idle)
    (hg : (w.threads t).guard? key = some m) (hm : w.sees keep m = false)
    (hs : w.start t (.drop key) = some s) : s.world.Echoes keep v := by
  have hth := useGuarded_unseen h t hm fun d => withdrawal d (w.mutexes m).lock .reentrant
  simp only [start, hg, Option.bind_eq_bind, Option.bind_some] at hs
  have hguards : (w.useGuarded t (w.mutexes m).backing
      fun d => withdrawal d (w.mutexes m).lock .reentrant).2.guard? key = some m := hg
  generalize w.useGuarded t (w.mutexes m).backing
    (fun d => withdrawal d (w.mutexes m).lock .reentrant) = r at hs hth hguards
  obtain ⟨status, th⟩ := r
  have hth := hth.letGo_unseen hguards hm
  cases status with
  | left =>
    obtain rfl := Option.some.inj hs
    exact h.setThread_unseen (hth.begin_unseen hidle (Stage.seen_of_unseen rfl hm))
  | nested | unbalanced =>
    obtain rfl := Option.some.inj hs
    exact h.setThread_unseen hth

theorem forget_unseen (h : w.Echoes keep v) (hg : (w.threads t).guard? key = some m)
    (hm : w.sees keep m = false) (hs : w.start t (.forget key) = some s) :
    s.world.Echoes keep v := by
  have hth := (h.threads t).letGo_unseen hg hm
  simp only [start, hg, Option.bind_eq_bind, Option.bind_some] at hs
  obtain rfl := Option.some.inj hs
  refine h.setThread_unseen ⟨hth.shared, hth.guarded, hth.guards, ?_, hth.stage⟩
  rw [List.filter_cons_of_neg (by simp [hm]), (h.threads t).forgotten]

theorem shared_unseen {b : Backing} (h : w.Echoes keep v) (hb : action.shared? = some b)
    (hkeep : keep (.shared t b) = false) (hs : w.start t action = some s) :
    s.world.Echoes keep v := by
  obtain ⟨α, f, answer, events, hstart⟩ := start_shared hb
  rw [hstart] at hs
  obtain rfl := Option.some.inj hs
  exact h.setThread_unseen (useShared_unseen h hkeep _)

theorem start_unseen (h : w.Echoes keep v) (hidle : (w.threads t).stage = .idle) {part : Part}
    (hpart : w.part? t action = some part) (hkeep : keep part = false)
    (hs : w.start t action = some s) : s.world.Echoes keep v := by
  have hidle : (v.threads t).stage = .idle := by rw [(h.threads t).stage, hidle]; rfl
  cases action with
  | proceed => cases hs
  | lock m key =>
    obtain rfl := Option.some.inj hpart
    exact lock_unseen h hidle hkeep hs
  | tryLock m key =>
    obtain rfl := Option.some.inj hpart
    exact tryLock_unseen h hidle hkeep hs
  | drop key =>
    obtain ⟨m, hg, rfl⟩ := Option.map_eq_some_iff.mp hpart
    exact drop_unseen h hidle hg hkeep hs
  | forget key =>
    obtain ⟨m, hg, rfl⟩ := Option.map_eq_some_iff.mp hpart
    exact forget_unseen h hg hkeep hs
  | depth m =>
    obtain rfl := Option.some.inj hpart
    obtain rfl := Option.some.inj hs
    exact h.setThread_unseen (guardDepth_unseen h t hkeep)
  | acquire | release | rollBack | sharedDepth | sharedCount | sharedUsage =>
    obtain rfl := Option.some.inj hpart
    exact shared_unseen h rfl hkeep hs
  | exit | install | sizing => cases hpart

theorem proceed_unseen (h : w.Echoes keep v) {part : Part}
    (hpart : w.part? t .proceed = some part) (hkeep : keep part = false)
    (hs : w.proceed t = some s) : s.world.Echoes keep v := by
  obtain ⟨m, hmutex, rfl⟩ := Option.map_eq_some_iff.mp hpart
  have hidle : (v.threads t).stage = .idle := by
    rw [(h.threads t).stage, Stage.seen_of_unseen hmutex hkeep]
  cases hw : (w.threads t).stage with
  | idle => simp [proceed, hw] at hs
  | taking m' key =>
    obtain rfl : m' = m := Option.some.inj (by rw [← hmutex, hw]; rfl)
    simp only [proceed, hw] at hs
    split at hs
    · cases hs
    · obtain rfl := Option.some.inj hs
      exact h.update_unseen hkeep rfl rfl ((h.threads t).hold_unseen key hkeep hidle)
  | recording m' key =>
    obtain rfl : m' = m := Option.some.inj (by rw [← hmutex, hw]; rfl)
    have hth := recordGuard_unseen h t hkeep
    simp only [proceed, hw] at hs
    generalize w.recordGuard t m' = r at hs hth
    obtain ⟨⟨status, notice, capacity⟩, th⟩ := r
    split at hs
    · obtain rfl := Option.some.inj hs
      exact h.setThread_unseen (hth.hold_unseen key hkeep hidle)
    · obtain rfl := Option.some.inj hs
      exact h.setThread_unseen (hth.begin_unseen hidle (Stage.seen_of_unseen rfl hkeep))
  | undoing m' | leaving m' =>
    obtain rfl : m' = m := Option.some.inj (by rw [← hmutex, hw]; rfl)
    simp only [proceed, hw, unlockRaw] at hs
    obtain rfl := Option.some.inj hs
    exact h.update_unseen hkeep rfl rfl ((h.threads t).begin_unseen hidle rfl)

/-- **A step outside the parts** changes nothing that the echo has. -/
theorem Echoes.unseen_step (h : w.Echoes keep v) {part : Part}
    (hpart : w.part? t action = some part) (hkeep : keep part = false)
    (hs : w.step t action = some s) : s.world.Echoes keep v := by
  rw [World.step] at hs
  split at hs
  · rename_i ha
    subst ha
    exact proceed_unseen h hpart hkeep hs
  · split at hs
    · exact start_unseen h ‹_› hpart hkeep hs
    · cases hs

/-! ## Runs with steps left out -/

variable {M : Set MutexIx} {start : World} {past : List Deed}

theorem Echoes.awaken (h : w.Echoes keep v) (t : ThreadIx) :
    (w.awaken t).Echoes keep (v.awaken t) :=
  h.setThread ⟨(h.threads t).shared, (h.threads t).guarded, (h.threads t).guards,
    (h.threads t).forgotten, (h.threads t).stage⟩

end World

/-- The step is about one of the parts, or about none in particular. -/
def Deed.within (keep : Part → Bool) (deed : Deed) : Bool :=
  (deed.before.part? deed.thread deed.action).all keep

/-- The same step, taken in two worlds, with the same coming of it. -/
structure Deed.Echoes (keep : Part → Bool) (deed deed' : Deed) : Prop where
  thread : deed'.thread = deed.thread
  action : deed'.action = deed.action
  before : deed.before.Echoes keep deed'.before
  result : deed.result.Echoes keep deed'.result

namespace World

variable {M : Set MutexIx} {start w : World} {past : List Deed}

/-- The steps about some parts make a run of their own, in which each comes out as it did. -/
def Unaffected (keep : Part → Bool) (M : Set MutexIx) (start : World) (past : List Deed)
    (w : World) : Prop :=
  ∃ past' w', Run M start past' w' ∧
    List.Forall₂ (Deed.Echoes keep) (past.filter (Deed.within keep)) past' ∧ w.Echoes keep w'

theorem Run.unaffected (hstart : start.Echoes keep start) (h : Run M start past w) :
    Unaffected keep M start past w := by
  induction h with
  | begin => exact ⟨[], start, .begin, .nil, hstart⟩
  | wake t _ ih =>
    obtain ⟨past', w', hrun, hpast, hw⟩ := ih
    exact ⟨past', _, hrun.wake t, hpast, hw.awaken t⟩
  | @step past w t action s _ hm hs ih =>
    obtain ⟨past', w', hrun, hpast, hw⟩ := ih
    cases hin : Deed.within keep ⟨w, t, action, s⟩ with
    | true =>
      obtain ⟨s', hs', he⟩ := hw.step hin hs
      rw [Unaffected, List.filter_cons_of_pos hin]
      exact ⟨_, _, hrun.step hm hs', .cons ⟨rfl, rfl, hw, he⟩ hpast, he.world⟩
    | false =>
      rw [Unaffected, List.filter_cons_of_neg (by simp [hin])]
      cases hpart : w.part? t action with
      | none => simp [Deed.within, hpart] at hin
      | some part =>
        have hout : keep part = false := by simpa [Deed.within, hpart] using hin
        exact ⟨past', w', hrun, hpast, hw.unseen_step hpart hout hs⟩

theorem echoes_initial (keep : Part → Bool) (hash : LockId → UInt64)
    (mutexes : MutexIx → LockId × Backing) :
    (initial hash mutexes).Echoes keep (initial hash mutexes) :=
  ⟨rfl, rfl, fun _ => ⟨rfl, rfl⟩, fun _ _ => rfl, fun t => .fresh keep _ t⟩

end World

/-- All that is about mutexes. -/
def Part.isMutexes : Part → Bool
  | mutexes _ => true
  | shared .. => false

/-- All that is about the shields open to everyone. -/
def Part.isShared (part : Part) : Bool := !part.isMutexes

namespace World

variable {M M' : Set MutexIx} {hash hash' : LockId → UInt64}
  {mutexes mutexes' : MutexIx → LockId × Backing} {past past' : List Deed} {w w' : World}

/-- **Shields and mutexes do not influence each other.** However threads interleave, steps on
mutexes come out as if no shield had been used, steps on shields as if no mutex had, and the guards
of one backing as if those of the other did not exist. What a thread is told by its own shields of
one backing is the same in any two runs in which it asks the same of them. -/
theorem Run.parts_apart (h : Run M (initial hash mutexes) past w) :
    Unaffected Part.isMutexes M (initial hash mutexes) past w ∧
    Unaffected Part.isShared M (initial hash mutexes) past w ∧
    (∀ b, Unaffected (· == .mutexes b) M (initial hash mutexes) past w) ∧
    ∀ {M' hash' mutexes' past' w'}, Run M' (initial hash' mutexes') past' w' → ∀ t b,
      (past.filter (Deed.isOwn t b)).map Deed.action =
        (past'.filter (Deed.isOwn t b)).map Deed.action →
      ((past.filter (Deed.isOwn t b)).map fun deed => deed.result.answer) =
        (past'.filter (Deed.isOwn t b)).map fun deed => deed.result.answer :=
  ⟨h.unaffected (echoes_initial ..), h.unaffected (echoes_initial ..),
    fun _ => h.unaffected (echoes_initial ..), fun h' _ _ hsame => h.answers_own h' hsame⟩

/-- A thread locks a mutex after it acquired a shield of the same identity, and another thread gives
that identity up in vain. -/
theorem Run.parts_apart_forged :
    let mutexes : MutexIx → LockId × Backing := fun m => (⟨UInt64.ofNat m⟩, .bounded)
    let start := initial (fun _ => 0) mutexes
    ∃ past w, Run {5} start past w ∧ (past.filter (Deed.within Part.isMutexes)).length = 2 ∧
      Unaffected Part.isMutexes {5} start past w ∧ Unaffected Part.isShared {5} start past w ∧
      (∀ b, Unaffected (· == .mutexes b) {5} start past w) ∧
      (past.filter (Deed.isOwn 1 .bounded)).map (fun deed => deed.result.answer) =
        [.released .unbalanced] := by
  intro mutexes start
  have h₀ : Run {5} start [] _ := .begin
  have h₁ := h₀.step (by rintro _ ⟨⟩)
    (rfl : World.step _ 0 (.acquire .bounded ⟨5⟩ .strict) = some _)
  have h₂ := h₁.step (by rintro _ ⟨⟩; rfl) (rfl : World.step _ 0 (.lock 5 (.slot 0)) = some _)
  have h₃ := h₂.step (by rintro _ ⟨⟩) (rfl : World.step _ 0 .proceed = some _)
  have h₄ := h₃.step (by rintro _ ⟨⟩)
    (rfl : World.step _ 1 (.release .bounded ⟨5⟩ .strict) = some _)
  have g₁ := h₀.step (by rintro _ ⟨⟩)
    (rfl : World.step _ 1 (.release .bounded ⟨5⟩ .strict) = some _)
  obtain ⟨hmutexes, hshared, hbackings, hown⟩ := h₄.parts_apart
  exact ⟨_, _, h₄, rfl, hmutexes, hshared, hbackings, hown g₁ 1 .bounded rfl⟩

end World

end LockElision
