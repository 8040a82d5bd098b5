import LockElision.Proofs.Directory.Sizing
import LockElision.Proofs.Process.Shared

/-!
# The pool setting

The first valid request for a pool sizing is granted, and no other ever is. A pooled directory is
made when its thread first uses it, as large as the sizing in force at that moment has it, and stays
so until the thread ends. Both are read off the steps behind a world: what is in force was asked for
by the first of them to ask for something valid (`firstSizing`), and a directory was made by the
first of its thread to use it (`opening`).
-/

namespace LockElision

/-- Which of a thread's two pooled directories: that of the shields open to everyone, or that of the
guards. -/
inductive PoolKind where
  | shared
  | guarded
  deriving DecidableEq

namespace Thread

def pool? (th : Thread) : PoolKind → Option PooledDirectory
  | .shared => th.shared.pooled
  | .guarded => th.guarded.pooled

end Thread

def Backing.pool? (kind : PoolKind) : Backing → Option PoolKind
  | bounded => none
  | pooled => some kind

theorem Backing.pool?_ne {kind other : PoolKind} (b : Backing) (h : other ≠ kind) :
    b.pool? kind ≠ some other := by
  cases b with
  | bounded => exact nofun
  | pooled => exact fun he => h (Option.some.inj he).symm

/-- The sizing an action asks for, if that is a valid one. -/
def Action.sizing? : Action → Option PoolSizing
  | install asked => if asked.Valid then some asked else none
  | _ => none

namespace World

/-- The mutex an action of a thread looks up in the thread's guard directory. -/
def lookup? (w : World) (t : ThreadIx) : Action → Option MutexIx
  | .proceed =>
    match (w.threads t).stage with
    | .recording m _ => some m
    | _ => none
  | .drop key => (w.threads t).guard? key
  | action => action.mutex?

/-- The pooled directory an action of a thread uses, if it uses one. -/
def pool? (w : World) (t : ThreadIx) (action : Action) : Option PoolKind :=
  match action.shared? with
  | some b => b.pool? .shared
  | none => (w.lookup? t action).bind fun m => (w.mutexes m).backing.pool? .guarded

end World

namespace Deed

/-- The step uses that pooled directory of the thread. -/
def uses (t : ThreadIx) (kind : PoolKind) (deed : Deed) : Bool :=
  deed.thread == t && deed.before.pool? t deed.action == some kind

/-- The step ends the thread. -/
def ends (t : ThreadIx) (deed : Deed) : Bool := deed.thread == t && deed.action == .exit

/-- The sizing the step asked for and got. -/
def installed? (deed : Deed) : Option PoolSizing :=
  match deed.action, deed.result.answer with
  | .install sizing, .installed => some sizing
  | _, _ => none

end Deed

/-- The first valid sizing that is asked for. -/
def firstSizing (past : List Deed) : Option PoolSizing :=
  past.reverse.findSome? fun deed => deed.action.sizing?

/-- The first use of a pooled directory since its thread began. -/
def opening (t : ThreadIx) (kind : PoolKind) (past : List Deed) : Option Deed :=
  (past.takeWhile fun deed => !deed.ends t).reverse.find? (Deed.uses t kind)

section Histories

variable {deed x : Deed} {past later : List Deed} {t : ThreadIx} {kind : PoolKind}

theorem firstSizing_cons :
    firstSizing (deed :: past) = (firstSizing past).or deed.action.sizing? := by
  rw [firstSizing, List.reverse_cons, List.findSome?_append, List.findSome?_singleton]
  rfl

theorem opening_of_ends (h : deed.ends t = true) : opening t kind (deed :: past) = none := by
  rw [opening, List.takeWhile_cons_of_neg (by simp [h])]
  rfl

theorem opening_cons (h : deed.ends t = false) : opening t kind (deed :: past) =
    (opening t kind past).or (if deed.uses t kind = true then some deed else none) := by
  rw [opening, List.takeWhile_cons_of_pos (by simp [h]), List.reverse_cons, List.find?_append,
    List.find?_singleton]
  rfl

theorem opening_append (h : opening t kind past = some x) (hgoes : ∀ y ∈ later, y.ends t = false) :
    opening t kind (later ++ past) = some x := by
  induction later with
  | nil => exact h
  | cons y later ih =>
    obtain ⟨hy, hlater⟩ := List.forall_mem_cons.mp hgoes
    rw [List.cons_append, opening_cons hy, ih hlater]
    rfl

end Histories

namespace World

variable {w v w' : World} {t : ThreadIx} {m : MutexIx} {key : GuardKey} {s : Step} {th : Thread}
  {action : Action} {b : Backing} {kind : PoolKind}

/-! ## What one step does -/

open PooledDirectory in
/-- A pooled directory that is used, or none that stays none. -/
abbrev PoolLeadsTo : Option PooledDirectory → Option PooledDirectory → Prop := Option.Rel LeadsTo

theorem PoolLeadsTo.refl (pool : Option PooledDirectory) : PoolLeadsTo pool pool := by
  cases pool with
  | none => exact .none
  | some d => exact .some (.refl d)

theorem PoolLeadsTo.trans {pool pool' pool'' : Option PooledDirectory}
    (h : PoolLeadsTo pool pool') (h' : PoolLeadsTo pool' pool'') : PoolLeadsTo pool pool'' := by
  cases h with
  | none => exact h'
  | some h =>
    cases h' with
    | some h' => exact .some (h.trans h')

theorem PoolLeadsTo.or {pool pool' : Option PooledDirectory} (h : PoolLeadsTo pool pool')
    (made : Option PooledDirectory) : PoolLeadsTo (pool.or made) (pool'.or made) := by
  cases h with
  | none => exact .refl made
  | some h => exact .some h

/-- A thread's pooled directory as a use finds it; it may be made only now. -/
def opened (w : World) (t : ThreadIx) (used : Option PoolKind) (kind : PoolKind) :
    Option PooledDirectory :=
  ((w.threads t).pool? kind).or (if used = some kind then some w.newPooled else none)

/-- A step that does not end its thread. The sizing it asks for is installed unless there is one
already, the pooled directory it uses is made unless there is one already, and no other is made or
lost. -/
structure Opens (w : World) (t : ThreadIx) (action : Action) (w' : World) : Prop where
  setting : w'.setting = w.setting.or action.sizing?
  own : ∀ kind, PoolLeadsTo (w.opened t (w.pool? t action) kind) ((w'.threads t).pool? kind)
  others : ∀ t', t' ≠ t → w'.threads t' = w.threads t'

theorem opens_setThread (hthreads : v.threads = w.threads)
    (hsetting : v.setting = w.setting.or action.sizing?)
    (h : ∀ kind, PoolLeadsTo (w.opened t (w.pool? t action) kind) (th.pool? kind)) :
    w.Opens t action (v.setThread t th) := by
  refine ⟨hsetting, fun kind => ?_, fun t' hne => ?_⟩
  · rw [threads_setThread_self]
    exact h kind
  · rw [threads_setThread_ne hne, hthreads]

theorem leadsTo_opened_of_ne {used : Option PoolKind} (h : used ≠ some kind) :
    PoolLeadsTo (w.opened t used kind) ((w.threads t).pool? kind) := by
  rw [opened, if_neg h, Option.or_none]
  exact .refl _

/-- A step that uses no pooled directory, and asks for no sizing. -/
theorem opens_unused (hthreads : v.threads = w.threads) (hsetting : v.setting = w.setting)
    (hused : w.pool? t action = none) (hsizing : action.sizing? = none)
    (h : ∀ kind, th.pool? kind = (w.threads t).pool? kind) :
    w.Opens t action (v.setThread t th) := by
  refine opens_setThread hthreads ?_ fun kind => ?_
  · rw [hsizing, Option.or_none, hsetting]
  · rw [hused, h]
    exact leadsTo_opened_of_ne nofun

section Uses

variable {α : Type} {f : {D : Type} → [Inspectable D] → D → α × D}

theorem leadsTo_use (hf : ∀ d : PooledDirectory, d.LeadsTo (f d).2) (make : PooledDirectory)
    (b : Backing) (shelf : Shelf) :
    PoolLeadsTo (shelf.pooled.or (if b = .pooled then some make else none))
      (shelf.use make b f).2.pooled := by
  cases b with
  | bounded =>
    rw [if_neg (by simp), Option.or_none]
    exact .refl _
  | pooled =>
    show PoolLeadsTo _ (some (f (shelf.openPooled make)).2)
    rw [Shelf.openPooled]
    cases shelf.pooled <;> exact .some (hf _)

theorem leadsTo_useGuarded (hf : ∀ d : PooledDirectory, d.LeadsTo (f d).2) (b : Backing)
    (kind : PoolKind) :
    PoolLeadsTo (w.opened t (b.pool? .guarded) kind) ((w.useGuarded t b f).2.pool? kind) := by
  cases kind with
  | shared =>
    have hother := leadsTo_opened_of_ne (w := w) (t := t)
      (b.pool?_ne (show PoolKind.shared ≠ .guarded from nofun))
    cases b <;> exact hother
  | guarded =>
    have huse := leadsTo_use hf w.newPooled b (w.threads t).guarded
    cases b <;> exact huse

theorem leadsTo_useShared (hf : ∀ d : PooledDirectory, d.LeadsTo (f d).2) (b : Backing)
    (kind : PoolKind) :
    PoolLeadsTo (w.opened t (b.pool? .shared) kind) ((w.useShared t b f).2.pool? kind) := by
  cases kind with
  | guarded =>
    have hother := leadsTo_opened_of_ne (w := w) (t := t)
      (b.pool?_ne (show PoolKind.guarded ≠ .shared from nofun))
    cases b <;> exact hother
  | shared =>
    have huse := leadsTo_use hf w.newPooled b (w.threads t).shared
    cases b <;> exact huse

end Uses

theorem opens_shared {α : Type} {f : {D : Type} → [Inspectable D] → D → α × D}
    (hf : ∀ d : PooledDirectory, d.LeadsTo (f d).2) (hb : action.shared? = some b)
    (hsizing : action.sizing? = none) :
    w.Opens t action (w.setThread t (w.useShared t b f).2) := by
  refine opens_setThread rfl ?_ fun kind => ?_
  · rw [hsizing, Option.or_none]
  · rw [pool?, hb]
    exact leadsTo_useShared hf b kind

theorem leadsTo_recordGuard (w : World) (t : ThreadIx) (m : MutexIx) (kind : PoolKind) :
    PoolLeadsTo (w.opened t ((w.mutexes m).backing.pool? .guarded) kind)
      ((w.recordGuard t m).2.pool? kind) :=
  leadsTo_useGuarded (fun d => d.leadsTo_admission _ _) _ _

theorem leadsTo_guardDepth (w : World) (t : ThreadIx) (m : MutexIx) (kind : PoolKind) :
    PoolLeadsTo (w.opened t ((w.mutexes m).backing.pool? .guarded) kind)
      ((w.guardDepth t m).2.pool? kind) :=
  leadsTo_useGuarded (fun d => .refl d) _ _

theorem opens_lock (h : w.start t (.lock m key) = some s) : w.Opens t (.lock m key) s.world := by
  have hth := w.leadsTo_recordGuard t m
  simp only [start] at h
  generalize w.recordGuard t m = r at h hth
  obtain ⟨⟨status, notice, capacity⟩, th⟩ := r
  split at h
  all_goals
    obtain rfl := Option.some.inj h
    exact opens_setThread rfl Option.or_none.symm hth

theorem opens_tryLock (h : w.start t (.tryLock m key) = some s) :
    w.Opens t (.tryLock m key) s.world := by
  have hth := w.leadsTo_guardDepth t m
  simp only [start] at h
  generalize w.guardDepth t m = r at h hth
  obtain ⟨depth, th⟩ := r
  repeat' split at h
  all_goals
    obtain rfl := Option.some.inj h
    exact opens_setThread rfl Option.or_none.symm hth

theorem opens_depth (h : w.start t (.depth m) = some s) : w.Opens t (.depth m) s.world := by
  obtain rfl := Option.some.inj h
  exact opens_setThread rfl Option.or_none.symm (w.leadsTo_guardDepth t m)

theorem opens_drop (h : w.start t (.drop key) = some s) : w.Opens t (.drop key) s.world := by
  cases hg : (w.threads t).guard? key with
  | none => simp [start, hg] at h
  | some m =>
    have hused : w.pool? t (.drop key) = (w.mutexes m).backing.pool? .guarded := by
      show ((w.threads t).guard? key).bind _ = _
      rw [hg]
      rfl
    have hth := fun kind => leadsTo_useGuarded (w := w) (t := t) (f := fun d =>
      withdrawal d (w.mutexes m).lock .reentrant) (fun d => d.leadsTo_withdrawal _ _)
      (w.mutexes m).backing kind
    rw [← hused] at hth
    simp only [start, hg, Option.bind_eq_bind, Option.bind_some] at h
    repeat' split at h
    all_goals
      obtain rfl := Option.some.inj h
      exact opens_setThread rfl Option.or_none.symm hth

theorem opens_forget (h : w.start t (.forget key) = some s) : w.Opens t (.forget key) s.world := by
  cases hg : (w.threads t).guard? key with
  | none => simp [start, hg] at h
  | some m =>
    simp only [start, hg, Option.bind_eq_bind, Option.bind_some] at h
    obtain rfl := Option.some.inj h
    exact opens_unused rfl rfl rfl rfl fun _ => rfl

/-- What a request for a sizing is answered, and the world after it. -/
inductive Installs (w : World) (sizing : PoolSizing) : Answer → World → Prop where
  | invalid {text : String} : ¬ sizing.Valid →
      Installs w sizing (.refused (.invalidConfig text)) w
  | late : sizing.Valid → w.setting.isSome = true →
      Installs w sizing (.refused .poolAlreadyInstalled) w
  | first : sizing.Valid → w.setting = none →
      Installs w sizing .installed { w with setting := some sizing }

theorem start_install {sizing : PoolSizing} (h : w.start t (.install sizing) = some s) :
    w.Installs sizing s.answer s.world := by
  simp only [start] at h
  rcases sizing.validate_cases with ⟨hvalid, hok⟩ | ⟨hinvalid, fault, herror⟩
  · rw [hok] at h
    cases hsetting : w.setting with
    | none =>
      rw [hsetting] at h
      obtain rfl := Option.some.inj h
      exact .first hvalid hsetting
    | some before =>
      rw [hsetting] at h
      obtain rfl := Option.some.inj h
      exact .late hvalid (by rw [hsetting]; rfl)
  · rw [herror] at h
    obtain rfl := Option.some.inj h
    exact .invalid hinvalid

namespace Installs

variable {sizing : PoolSizing} {answer : Answer}

theorem of_invalid (h : w.Installs sizing answer w') (hinvalid : ¬ sizing.Valid) :
    ∃ text, answer = .refused (.invalidConfig text) := by
  cases h with
  | invalid => exact ⟨_, rfl⟩
  | late hvalid | first hvalid => exact absurd hvalid hinvalid

theorem of_first (h : w.Installs sizing answer w') (hvalid : sizing.Valid)
    (hnone : w.setting = none) : answer = .installed := by
  cases h with
  | invalid hinvalid => exact absurd hvalid hinvalid
  | late _ hsome => rw [hnone] at hsome; cases hsome
  | first => rfl

theorem of_late (h : w.Installs sizing answer w') (hvalid : sizing.Valid)
    (hsome : w.setting.isSome = true) : answer = .refused .poolAlreadyInstalled := by
  cases h with
  | invalid hinvalid => exact absurd hvalid hinvalid
  | late => rfl
  | first _ hnone => rw [hnone] at hsome; cases hsome

theorem setting (h : w.Installs sizing answer w') :
    w'.setting = w.setting.or (Action.install sizing).sizing? := by
  cases h with
  | invalid hinvalid => rw [Action.sizing?, if_neg hinvalid, Option.or_none]
  | late _ hsome => rw [Option.or_of_isSome hsome]
  | first hvalid hnone => rw [Action.sizing?, if_pos hvalid, hnone]; rfl

theorem threads (h : w.Installs sizing answer w') : w'.threads = w.threads := by
  cases h <;> rfl

end Installs

theorem start_install_first {sizing : PoolSizing} (hvalid : sizing.Valid) (h : w.setting = none) :
    w.start t (.install sizing) =
      some ⟨{ w with setting := some sizing }, .installed, [sizing.installed]⟩ := by
  simp only [start, PoolSizing.validate_ok_iff.mpr hvalid, h]

theorem opens_install {sizing : PoolSizing} (h : w.start t (.install sizing) = some s) :
    w.Opens t (.install sizing) s.world := by
  have hinstalls := start_install h
  refine ⟨hinstalls.setting, fun kind => ?_, fun t' _ => by rw [hinstalls.threads]⟩
  rw [hinstalls.threads]
  exact leadsTo_opened_of_ne nofun

theorem start_opens (hexit : action ≠ .exit) (h : w.start t action = some s) :
    w.Opens t action s.world := by
  cases action with
  | proceed => cases h
  | lock m key => exact opens_lock h
  | tryLock m key => exact opens_tryLock h
  | drop key => exact opens_drop h
  | forget key => exact opens_forget h
  | exit => exact absurd rfl hexit
  | depth m => exact opens_depth h
  | install sizing => exact opens_install h
  | sizing =>
    obtain rfl := Option.some.inj h
    exact ⟨Option.or_none.symm, fun _ => leadsTo_opened_of_ne nofun, fun _ _ => rfl⟩
  | acquire b lock mode =>
    obtain rfl := Option.some.inj h
    exact opens_shared (f := fun d =>
      let r := admission d lock mode
      ((r.1, r.2.2), r.2.1)) (fun d => d.leadsTo_admission lock mode) rfl rfl
  | release b lock mode =>
    obtain rfl := Option.some.inj h
    exact opens_shared (f := fun d => withdrawal d lock mode)
      (fun d => d.leadsTo_withdrawal lock mode) rfl rfl
  | rollBack b lock =>
    obtain rfl := Option.some.inj h
    exact opens_shared (f := fun d => LockElision.rollBack d lock)
      (fun d => d.leadsTo_rollBack lock) rfl rfl
  | sharedDepth b lock =>
    obtain rfl := Option.some.inj h
    exact opens_shared (f := fun d => ((Directory.find? d lock).map Holding.depth, d))
      (fun d => .refl d) rfl rfl
  | sharedCount b =>
    obtain rfl := Option.some.inj h
    exact opens_shared (f := fun d => (Directory.size d, d)) (fun d => .refl d) rfl rfl
  | sharedUsage =>
    obtain rfl := Option.some.inj h
    exact opens_shared (b := .pooled) (f := fun d => (Inspectable.usage? d, d))
      (fun d => .refl d) rfl rfl

theorem proceed_opens (h : w.proceed t = some s) : w.Opens t .proceed s.world := by
  cases hstage : (w.threads t).stage with
  | idle => simp [proceed, hstage] at h
  | recording m key =>
    have hused : w.pool? t .proceed = (w.mutexes m).backing.pool? .guarded := by
      simp only [pool?, Action.shared?, lookup?, hstage, Option.bind_some]
    have hth := w.leadsTo_recordGuard t m
    rw [← hused] at hth
    simp only [proceed, hstage] at h
    generalize w.recordGuard t m = r at h hth
    obtain ⟨⟨status, notice, capacity⟩, th⟩ := r
    split at h
    all_goals
      obtain rfl := Option.some.inj h
      exact opens_setThread rfl Option.or_none.symm hth
  | taking m key =>
    have hused : w.pool? t .proceed = none := by
      simp only [pool?, Action.shared?, lookup?, hstage, Option.bind_none]
    simp only [proceed, hstage] at h
    split at h
    · cases h
    · obtain rfl := Option.some.inj h
      exact opens_unused rfl rfl hused rfl fun _ => rfl
  | undoing m | leaving m =>
    have hused : w.pool? t .proceed = none := by
      simp only [pool?, Action.shared?, lookup?, hstage, Option.bind_none]
    simp only [proceed, hstage] at h
    obtain rfl := Option.some.inj h
    exact opens_unused rfl rfl hused rfl fun _ => rfl

theorem start_of_ne (hne : action ≠ .proceed) (h : w.step t action = some s) :
    w.start t action = some s := by
  rw [step, if_neg hne] at h
  split at h
  · exact h
  · cases h

/-- **One step**, but for the end of a thread. -/
theorem step_opens (hexit : action ≠ .exit) (h : w.step t action = some s) :
    w.Opens t action s.world := by
  by_cases hproceed : action = .proceed
  · subst hproceed
    exact proceed_opens h
  · exact start_opens hexit (start_of_ne hproceed h)

theorem step_setting (h : w.step t action = some s) :
    s.world.setting = w.setting.or action.sizing? := by
  by_cases hexit : action = .exit
  · subst hexit
    rw [(step_exit h).2.2]
    exact Option.or_none.symm
  · exact (step_opens hexit h).setting

theorem step_pools (h : w.step t action = some s) (t' : ThreadIx) (kind : PoolKind) :
    let deed : Deed := ⟨w, t, action, s⟩
    PoolLeadsTo (if deed.ends t' = true then none else ((w.threads t').pool? kind).or
        (if deed.uses t' kind = true then some w.newPooled else none))
      ((s.world.threads t').pool? kind) := by
  intro deed
  by_cases ht : t = t'
  · subst ht
    by_cases hexit : action = .exit
    · subst hexit
      rw [if_pos (by simp [deed, Deed.ends]), (step_exit h).2.2, threads_setThread_self]
      cases kind <;> exact .none
    · have huses : (deed.uses t kind = true) = (w.pool? t action = some kind) := by
        simp [deed, Deed.uses]
      rw [if_neg (by simp [deed, Deed.ends, hexit])]
      simp only [huses]
      exact (step_opens hexit h).own kind
  · have hends : deed.ends t' = false := by simp [deed, Deed.ends, ht]
    have huses : deed.uses t' kind = false := by simp [deed, Deed.uses, ht]
    have hsame : s.world.threads t' = w.threads t' := by
      by_cases hexit : action = .exit
      · subst hexit
        rw [(step_exit h).2.2, threads_setThread_ne (Ne.symm ht)]
      · exact (step_opens hexit h).others t' (Ne.symm ht)
    rw [hends, huses, hsame, if_neg nofun, if_neg nofun, Option.or_none]
    exact .refl _

/-! ## What a run leaves -/

variable {M : Set MutexIx} {hash : LockId → UInt64} {mutexes : MutexIx → LockId × Backing}
  {past later earlier : List Deed} {deed : Deed}

theorem Run.before {start : World} (h : Run M start (later ++ deed :: earlier) w) :
    Run M start earlier deed.before ∧
      deed.before.step deed.thread deed.action = some deed.result := by
  generalize hpast : later ++ deed :: earlier = past at h
  induction h generalizing later with
  | begin => simp at hpast
  | wake t _ ih => exact ih hpast
  | step hrun _ hs ih =>
    cases later with
    | nil =>
      obtain ⟨rfl, rfl⟩ := List.cons.inj hpast
      exact ⟨hrun, hs⟩
    | cons x later => exact ih (List.cons.inj hpast).2

theorem Run.setting_eq (h : Run M (initial hash mutexes) past w) :
    w.setting = firstSizing past := by
  induction h with
  | begin => rfl
  | wake t _ ih => exact ih
  | step _ _ hs ih => rw [step_setting hs, ih, firstSizing_cons]

/-- A thread has the pooled directories it has used, each come of the one that was made. -/
theorem Run.pools (h : Run M (initial hash mutexes) past w) (t : ThreadIx) (kind : PoolKind) :
    PoolLeadsTo ((opening t kind past).map fun deed => deed.before.newPooled)
      ((w.threads t).pool? kind) := by
  induction h with
  | begin => cases kind <;> exact .none
  | @wake past w t' _ ih =>
    rw [awaken]
    by_cases ht : t = t'
    · subst ht
      rw [threads_setThread_self]
      exact ih
    · rw [threads_setThread_ne ht]
      exact ih
  | @step past w t' action s _ _ hs ih =>
    have hstep := step_pools hs t kind
    simp only at hstep
    cases hends : Deed.ends t ⟨w, t', action, s⟩ with
    | true =>
      rw [opening_of_ends hends]
      rwa [if_pos hends] at hstep
    | false =>
      rw [if_neg (by simp [hends])] at hstep
      rw [opening_cons hends, Option.map_or]
      have hmade : (if Deed.uses t kind ⟨w, t', action, s⟩ = true then
          some (⟨w, t', action, s⟩ : Deed) else none).map (fun deed => deed.before.newPooled) =
          if Deed.uses t kind ⟨w, t', action, s⟩ = true then some w.newPooled else none := by
        split <;> rfl
      rw [hmade]
      exact (ih.or _).trans hstep

theorem Run.inForce_eq (h : Run M (initial hash mutexes) past w) :
    w.inForce = (firstSizing past).getD .standard := by
  rw [inForce, h.setting_eq]

theorem Run.installed_eq (h : Run M (initial hash mutexes) past w) :
    past.filterMap Deed.installed? = (firstSizing past).toList := by
  induction h with
  | begin => rfl
  | wake t _ ih => exact ih
  | @step past w t action s hrun _ hs ih =>
    rw [List.filterMap_cons, ih, firstSizing_cons]
    by_cases hinstall : ∃ sizing, action = .install sizing
    · obtain ⟨sizing, rfl⟩ := hinstall
      have hsetting := hrun.setting_eq
      obtain ⟨world, answer, events⟩ := s
      cases start_install (start_of_ne (by simp) hs) with
      | invalid hinvalid =>
        simp only [Deed.installed?, Action.sizing?, if_neg hinvalid, Option.or_none]
      | late hvalid hsome =>
        rw [hsetting] at hsome
        simp only [Deed.installed?, Option.or_of_isSome hsome]
      | first hvalid hnone =>
        rw [hsetting] at hnone
        simp only [Deed.installed?, Action.sizing?, if_pos hvalid, hnone]
        rfl
    · have hnot : Deed.installed? ⟨w, t, action, s⟩ = none ∧ action.sizing? = none := by
        cases action with
        | install sizing => exact absurd ⟨sizing, rfl⟩ hinstall
        | _ => exact ⟨rfl, rfl⟩
      rw [hnot.1, hnot.2, Option.or_none]

end World

/-- A step that is about the pool setting is answered by what was installed before it. -/
structure Deed.Answered (deed : Deed) (earlier : List Deed) : Prop where
  inForce : deed.before.inForce = (firstSizing earlier).getD .standard
  read : deed.action = .sizing →
    deed.result.answer = .sizing ((firstSizing earlier).getD .standard)
  invalid : ∀ sizing, deed.action = .install sizing → ¬ sizing.Valid →
    ∃ text, deed.result.answer = .refused (.invalidConfig text)
  first : ∀ sizing, deed.action = .install sizing → sizing.Valid → firstSizing earlier = none →
    deed.result.answer = .installed
  later : ∀ sizing, deed.action = .install sizing → sizing.Valid →
    (firstSizing earlier).isSome = true → deed.result.answer = .refused .poolAlreadyInstalled

namespace World

variable {M : Set MutexIx} {hash : LockId → UInt64} {mutexes : MutexIx → LockId × Backing}
  {w : World} {past later earlier : List Deed} {deed : Deed} {t : ThreadIx} {kind : PoolKind}

theorem Run.answered (h : Run M (initial hash mutexes) (later ++ deed :: earlier) w) :
    deed.Answered earlier := by
  obtain ⟨hrun, hs⟩ := h.before
  have hsetting := hrun.setting_eq
  have hinstalls : ∀ {sizing}, deed.action = .install sizing →
      deed.before.Installs sizing deed.result.answer deed.result.world := by
    intro sizing hinstall
    rw [hinstall] at hs
    exact start_install (start_of_ne (by simp) hs)
  refine ⟨hrun.inForce_eq, fun hread => ?_, fun sizing hinstall hinvalid => ?_,
    fun sizing hinstall hvalid hnone => ?_, fun sizing hinstall hvalid hsome => ?_⟩
  · rw [← hrun.inForce_eq]
    rw [hread] at hs
    rw [← Option.some.inj (start_of_ne (by simp) hs)]
  · exact (hinstalls hinstall).of_invalid hinvalid
  · exact (hinstalls hinstall).of_first hvalid (hsetting.trans hnone)
  · exact (hinstalls hinstall).of_late hvalid (hsetting ▸ hsome)

theorem Run.pool_sizedBy (h : Run M (initial hash mutexes) past w) (t : ThreadIx)
    (kind : PoolKind) : Option.Rel (fun d opener => d.SizedBy opener.before.inForce)
      ((w.threads t).pool? kind) (opening t kind past) := by
  have hpools := h.pools t kind
  generalize (w.threads t).pool? kind = pool at hpools ⊢
  cases hopening : opening t kind past with
  | none =>
    rw [hopening, Option.map_none] at hpools
    cases hpools
    exact .none
  | some opener =>
    rw [hopening, Option.map_some] at hpools
    cases hpools with
    | some hleads => exact .some (PooledDirectory.sizedBy_of_leadsTo hleads).1

theorem Run.pool_lasts (h : Run M (initial hash mutexes) (later ++ deed :: earlier) w)
    {d : PooledDirectory} (hd : (deed.before.threads t).pool? kind = some d)
    (hgoes : ∀ x ∈ later ++ [deed], x.ends t = false) :
    ∃ d', (w.threads t).pool? kind = some d' ∧ d'.sizes = d.sizes := by
  have hbefore := h.before.1.pools t kind
  have hafter := h.pools t kind
  rw [hd] at hbefore
  cases hopening : opening t kind earlier with
  | none =>
    rw [hopening, Option.map_none] at hbefore
    cases hbefore
  | some opener =>
    rw [hopening, Option.map_some] at hbefore
    rw [← List.singleton_append, ← List.append_assoc, opening_append hopening hgoes,
      Option.map_some] at hafter
    generalize (w.threads t).pool? kind = pool at hafter ⊢
    cases hbefore with
    | some hleads =>
      cases hafter with
      | some hleads' =>
        refine ⟨_, rfl, ?_⟩
        rw [(PooledDirectory.sizedBy_of_leadsTo hleads').2,
          (PooledDirectory.sizedBy_of_leadsTo hleads).2]

/-- **The pool setting is made once, and fixes each directory when that is first used.** However
threads interleave, every step is answered by what was installed before it: an invalid request is
refused as such, the first valid one is granted, and any other valid one comes too late. So at most
one is ever granted, and what is in force changes only then. A thread has a pooled directory of
either kind once it has used it, as large as the sizing in force at that use has it, and just as
large until the thread ends. -/
theorem Run.setting_once (h : Run M (initial hash mutexes) past w) :
    (∀ later deed earlier, past = later ++ deed :: earlier → deed.Answered earlier) ∧
    past.filterMap Deed.installed? = (firstSizing past).toList ∧
    w.inForce = (firstSizing past).getD .standard ∧
    ∀ t kind,
      Option.Rel (fun d opener => d.SizedBy opener.before.inForce) ((w.threads t).pool? kind)
        (opening t kind past) ∧
      ∀ later deed earlier, past = later ++ deed :: earlier →
        (∀ x ∈ later ++ [deed], x.ends t = false) →
        ∀ d, (deed.before.threads t).pool? kind = some d →
          ∃ d', (w.threads t).pool? kind = some d' ∧ d'.sizes = d.sizes := by
  refine ⟨?_, h.installed_eq, h.inForce_eq, fun t kind => ⟨h.pool_sizedBy t kind, ?_⟩⟩
  · rintro later deed earlier rfl
    exact h.answered
  · rintro later deed earlier rfl hgoes d hd
    exact h.pool_lasts hd hgoes

/-- The two pooled directories of one thread differ when a sizing is installed between their first
uses. -/
theorem Run.setting_once_between :
    let start := initial (fun _ => 0) fun m => (⟨UInt64.ofNat m⟩, .pooled)
    ∃ past w, Run {5} start past w ∧
      past.map (fun deed => deed.action.sizing?.isSome) =
        [false, false, true, true, false, false, false] ∧
      past.filterMap Deed.installed? = [⟨2, 3⟩] ∧ w.inForce = ⟨2, 3⟩ ∧
      (∃ d, (w.threads 0).pool? .shared = some d ∧ d.SizedBy .standard) ∧
      ∃ d, (w.threads 0).pool? .guarded = some d ∧ d.SizedBy ⟨2, 3⟩ := by
  intro start
  have h₀ : Run {5} start [] _ := .begin
  have h₁ := h₀.step (by rintro _ ⟨⟩)
    (rfl : World.step _ 0 (.acquire .pooled ⟨1⟩ .strict) = some _)
  have h₂ := h₁.step (by rintro _ ⟨⟩) (rfl : World.step _ 1 (.install ⟨65537, 8⟩) = some _)
  have h₃ := h₂.step (by rintro _ ⟨⟩) (rfl : World.step _ 1 .sizing = some _)
  have h₄ := h₃.step (by rintro _ ⟨⟩) (rfl : World.step _ 1 (.install ⟨2, 3⟩) = some _)
  have h₅ := h₄.step (by rintro _ ⟨⟩) (rfl : World.step _ 0 (.install ⟨4, 4⟩) = some _)
  have h₆ := h₅.step (by rintro _ ⟨⟩) (rfl : World.step _ 2 (.install ⟨4, 0⟩) = some _)
  have h₇ := h₆.step (by rintro _ ⟨⟩; rfl) (rfl : World.step _ 0 (.depth 5) = some _)
  obtain ⟨hanswered, honce, hforce, hpools⟩ := h₇.setting_once
  have hshared := (hpools 0 .shared).1
  have hguarded := (hpools 0 .guarded).1
  refine ⟨_, _, h₇, by decide, honce, hforce, ?_, ?_⟩
  · generalize (World.threads _ 0).pool? .shared = pool at hshared ⊢
    cases hshared with
    | some hsized => exact ⟨_, rfl, hsized⟩
  · generalize (World.threads _ 0).pool? .guarded = pool at hguarded ⊢
    cases hguarded with
    | some hsized => exact ⟨_, rfl, hsized⟩

end World

end LockElision
