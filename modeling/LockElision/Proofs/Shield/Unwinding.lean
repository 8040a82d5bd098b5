import LockElision.Proofs.Directory.Restoring
import LockElision.Proofs.Shield.Routine

/-!
# Unwinding

A call whose real lock breaks off takes its lock back, whatever was made of its record meanwhile,
and leaves everything else as it is (`Routine.takesBack`). When nothing was done but to enter more
locks on the way in, each of them is taken back on the way out by undoing exactly what recording it
did. The directory is what it was then: a slot table in all its slots, a pooled directory in all its
nodes, and only counts the nodes that were made and thrown away (`Routine.chain_unwinds`).
-/

namespace LockElision

open Directory LawfulDirectory

namespace Routine

/-- Each call is made by the real lock of the one before. The innermost real lock that is called
breaks off, and nobody catches it. -/
def chain (panic : Panic) : List Call → Routine
  | [] => done (some panic)
  | c :: calls => call .lock c (chain panic calls) fun
    | .error broken => done (some broken)
    | .ok _ => done (some panic)

variable {D : Type} [Directory D] [LawfulDirectory D]

/-- A chain of calls breaks off, and the directory is what it was but for what was spent. -/
theorem chain_run [RestoringDirectory D] (panic : Panic) (calls : List Call) :
    ∀ story : Chronicle D, (calls.map Call.lock).Nodup →
      RestoringDirectory.Fit story.now.directory →
      (∀ c ∈ calls, c.lock ∉ ledger story.now.directory) →
      ∃ after news, (chain panic calls).run story = (some panic, after) ∧
        after.now.directory = RestoringDirectory.spent story.now.directory news.length ∧
        after.now.unread = story.now.unread ++ news ∧
        news.length = RestoringDirectory.dry story.now.directory calls.length := by
  induction calls with
  | nil =>
    intro story _ _ _
    refine ⟨story, [], rfl, ?_, ?_, ?_⟩
    · exact RestoringDirectory.spent_zero.symm
    · exact (List.append_nil _).symm
    · exact RestoringDirectory.dry_zero.symm
  | cons c calls ih =>
    intro story hdistinct hfit habsent
    have hd := RestoringDirectory.sound hfit
    obtain ⟨hnew, hdistinct⟩ := List.nodup_cons.mp hdistinct
    obtain ⟨hm, habsent⟩ := List.forall_mem_cons.mp habsent
    cases hp : place story.now.directory c.lock with
    -- the call is refused, so the real lock before it is the innermost one that is called
    | full n =>
      have hsettle := Scope.settle_lock Chronicle.scope (admission_of_full hd hm hp c.mode)
      refine ⟨_, [], run_elided (by rw [hsettle]; rfl), ?_, ?_, ?_⟩
      · rw [hsettle]; exact RestoringDirectory.spent_zero.symm
      · rw [hsettle]; rfl
      · exact (RestoringDirectory.dry_full _ hp).symm
    | placed d' notice =>
      obtain ⟨hfit', hdry, hremove⟩ := RestoringDirectory.place hfit hm hp
      have hb := placed_becomes hd hm hp
      have hsettle := Scope.settle_lock Chronicle.scope (admission_of_placed hd hm hp c.mode)
      have habsent' : ∀ other ∈ calls, other.lock ∉ ledger d' := by
        intro other hother
        rw [hb.ledger, Finmap.mem_insert, not_or]
        exact ⟨fun he => hnew (he ▸ List.mem_map_of_mem hother), habsent other hother⟩
      generalize hentered : (Chronicle.scope.settle .lock c story).2.note .lock c = entered at *
      have hdirectory : entered.now.directory = d' := by rw [← hentered, hsettle]; rfl
      have hnotice : entered.now.unread = story.now.unread ++ notice.toList := by
        rw [← hentered, hsettle]; rfl
      obtain ⟨after, news, hrun, hafter, hunread, hnews⟩ :=
        ih entered hdistinct (by rw [hdirectory]; exact hfit') (by rw [hdirectory]; exact habsent')
      rw [hdirectory] at hafter hnews
      -- the calls further in left `d'` but for what they spent, so the lock is taken out of that
      have hundo := Scope.undo_lock_of_held Chronicle.scope (c := c) (s := after)
        ((congrArg (remove · c.lock) hafter).trans (hremove news.length))
      refine ⟨Chronicle.scope.undo .lock c after, notice.toList ++ news, ?_, ?_, ?_, ?_⟩
      · rw [← hentered] at hrun
        rw [chain, run_broken (by rw [hsettle]; rfl) hrun]
        rfl
      · rw [hundo, List.length_append]
        rfl
      · rw [hundo]
        show after.now.unread ++ [] = _
        rw [List.append_nil, hunread, hnotice, List.append_assoc]
      · rw [List.length_append, hnews, List.length_cons, hdry]

/-- A chain of calls that starts here breaks off, none of its locks is recorded, and the directory
is `left`. Of the calls, `made` found no free node. -/
structure Unwinds (story : Chronicle D) (calls : List Call) (panic : Panic) (left : D)
    (made : Nat) : Prop where
  ended : ((chain panic calls).run story).1 = some panic
  directory : ((chain panic calls).run story).2.now.directory = left
  forgotten : ∀ c ∈ calls, contains ((chain panic calls).run story).2.now.directory c.lock = false
  announced : ∃ news, ((chain panic calls).run story).2.now.unread = story.now.unread ++ news ∧
    news.length = made

/-- If the real lock of a call breaks off, so does the call. The lock is not recorded then, and
every other lock is as the real lock left it. -/
def TakesBack (real : Routine) (c : Call) (story : Chronicle D) : Prop :=
  ∀ panic left,
    real.run ((Chronicle.scope.settle .lock c story).2.note .lock c) = (some panic, left) →
    let after := Chronicle.scope.call .lock c (real.operation .lock c) story
    after.1.1 = .error panic ∧ contains after.2.now.directory c.lock = false ∧
      ∀ other, other ≠ c.lock → find? after.2.now.directory other = find? left.now.directory other

theorem takesBack {story : Chronicle D} (hd : Sound story.now.directory) {c : Call}
    (hf : (Chronicle.scope.settle .lock c story).1.forwarded = true) (real : Routine) :
    real.TakesBack c story := by
  intro panic left hr
  have hentered : Sound ((Chronicle.scope.settle .lock c story).2.note .lock c).now.directory :=
    (Desk.settle_law hd .lock c).2.sound
  have hleft := real.run_sound _ hentered
  rw [hr] at hleft
  have hb := Desk.undo_lock_law hleft c
  rw [Scope.call_broken hf (operation_eq hr)]
  refine ⟨rfl, ?_, fun other hne => ?_⟩
  · refine (contains_eq hb.sound c.lock).trans ?_
    rw [hb.ledger, Finmap.lookup_erase]
    rfl
  · refine (find?_eq_map hb.sound other).trans ?_
    rw [hb.ledger, Finmap.lookup_erase_ne hne, ← find?_eq_map hleft]

theorem unwinds [RestoringDirectory D] {story : Chronicle D} {calls : List Call}
    (hdistinct : (calls.map Call.lock).Nodup) (panic : Panic)
    (hfit : RestoringDirectory.Fit story.now.directory)
    (habsent : ∀ c ∈ calls, contains story.now.directory c.lock = false) :
    Unwinds story calls panic
      (RestoringDirectory.spent story.now.directory
        (RestoringDirectory.dry story.now.directory calls.length))
      (RestoringDirectory.dry story.now.directory calls.length) := by
  have hd := RestoringDirectory.sound hfit
  have hnew : ∀ c ∈ calls, c.lock ∉ ledger story.now.directory := by
    intro c hc
    have h := habsent c hc
    rw [contains_eq hd, Option.isSome_eq_false_iff, Option.isNone_iff_eq_none] at h
    exact Finmap.lookup_eq_none.mp h
  obtain ⟨after, news, hrun, hafter, hunread, hnews⟩ :=
    chain_run panic calls story hdistinct hfit hnew
  rw [hnews] at hafter
  refine ⟨?_, ?_, ?_, ?_⟩ <;> rw [hrun]
  · exact hafter
  · intro c hc
    rw [hafter, RestoringDirectory.contains_spent]
    exact habsent c hc
  · exact ⟨news, hunread, hnews⟩

/-- **Unwinding restores the directory.** A chain of calls to enter locks that are not recorded
leaves a slot table as it was, and a pooled directory but for the nodes that were made and thrown
away again, one for each call beyond the free nodes. Whatever else the real lock of a call did, if
it breaks off its own lock is forgotten, and no other. -/
theorem chain_unwinds (calls : List Call) (hdistinct : (calls.map Call.lock).Nodup)
    (panic : Panic) :
    (∀ n (story : Chronicle (SlotTable n)), story.now.directory.Sound →
      (∀ c ∈ calls, contains story.now.directory c.lock = false) →
      Unwinds story calls panic story.now.directory 0) ∧
    (∀ story : Chronicle PooledDirectory, story.now.directory.Sound →
      story.now.directory.Stocked [] →
      (∀ c ∈ calls, contains story.now.directory c.lock = false) →
      Unwinds story calls panic
        (story.now.directory.spent (calls.length - story.now.directory.free.length))
        (calls.length - story.now.directory.free.length)) ∧
    ∀ (D : Type) [Directory D] [LawfulDirectory D] (story : Chronicle D) (c : Call)
      (real : Routine), Sound story.now.directory →
      (Chronicle.scope.settle .lock c story).1.forwarded = true → real.TakesBack c story := by
  refine ⟨fun n story hd habsent => ?_, fun story hd hs habsent => ?_,
    fun D _ _ story c real hd hf => real.takesBack hd hf⟩
  · exact unwinds hdistinct panic hd habsent
  · exact unwinds hdistinct panic ⟨hd, hs⟩ habsent

/-- A table with room for two locks and a pool of one node, before a chain of three, and a real lock
that forgets its own lock and enters it again. -/
theorem chain_unwinds_overflowing :
    let first : Call := ⟨⟨1⟩, .strict, []⟩
    let calls := [first, ⟨⟨2⟩, .reentrant, [7]⟩, ⟨⟨3⟩, .strict, []⟩]
    let table := Chronicle.start (SlotTable.empty 2)
    let pool := Chronicle.start (PooledDirectory.create (fun _ => 0) 1 1)
    let again : Routine := .call .unlock first (.done none) fun _ =>
      .call .lock first (.done none) fun _ => .done (some "broken")
    (calls.map Call.lock).Nodup ∧ Unwinds table calls "broken" (SlotTable.empty 2) 0 ∧
      Unwinds pool calls "broken" (pool.now.directory.spent 2) 2 ∧
      (again.run ((Chronicle.scope.settle .lock first table).2.note .lock first)).1 =
        some "broken" ∧
      again.TakesBack first table := by
  intro first calls table pool again
  have hdistinct : (calls.map Call.lock).Nodup := by decide
  obtain ⟨htable, hpool, hback⟩ := chain_unwinds calls hdistinct "broken"
  refine ⟨hdistinct, ?_, ?_, by decide +kernel, ?_⟩
  · exact htable 2 table (SlotTable.sound_empty 2).1 (by decide)
  · exact hpool pool (PooledDirectory.sound_create ..).1 (PooledDirectory.stocked_create ..)
      (by decide +kernel)
  · exact hback _ table _ again (SlotTable.sound_empty 2).1 (by decide)

end Routine

end LockElision
