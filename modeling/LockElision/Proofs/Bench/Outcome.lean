import LockElision.Proofs.Bench.Headway
import LockElision.Proofs.Bench.Refusal

/-!
# The outcome of a run

What a run ends with can be told from its plan alone (`crew_outcome`): the workers of a plan that
overflows are refused a lock, those of any other plan do all the operations planned, and in either
case they leave everything behind them as they found it. The choices of the workers and the way they
interleave make no difference.
-/

namespace LockElision

namespace Plan

variable {p : Plan} {site : Site} {moves : List Move} {c : Crew} {outcome : Except RunFault UInt64}

/-! ## Adding up the reports -/

theorem run_result (hp : p.validate = .ok ()) (site : Site) : (p.run site).result =
    addUp 0 0 ((List.range p.threads.toNat).map fun ix =>
      (p.shift site (UInt64.ofNat ix)).result true) := by
  simp only [run, hp, List.map_map]
  rfl

section

variable (hp : p.validate = .ok ()) (hids : Set.InjOn site.address {lock | p.HasLock lock})
include hp hids

theorem run_of_not_overflows (hno : ¬ p.Overflows) : (p.run site).result = .ok p.iterations := by
  obtain ⟨hthreads, -, -⟩ := validate_ok hp
  have hall : (fun ix => (p.shift site (UInt64.ofNat ix)).result true) =
      Except.ok ∘ fun ix => p.share (UInt64.ofNat ix) :=
    funext fun ix => result_of_not_overflows hp hids hno (UInt64.ofNat ix)
  rw [run_result hp, hall, ← List.map_map]
  exact addUp_shares hthreads

/-- The first worker has something to do, so it is refused a lock. -/
theorem run_of_overflows (ho : p.Overflows) : ∃ lock, p.HasLock lock ∧ (p.run site).result =
    .error (.shield (.capacityExceeded (site.address lock) tableCapacity)) := by
  obtain ⟨hthreads, hiterations, -⟩ := validate_ok hp
  have hpos := share_zero_pos hthreads hiterations
  obtain ⟨lock, hlock, hresult⟩ :=
    (result_of_overflows hp hids ho 0).resolve_right fun h => Nat.ne_of_gt hpos h.1
  obtain ⟨more, hmore⟩ : ∃ more, p.threads.toNat = more + 1 :=
    Nat.exists_eq_succ_of_ne_zero fun he => hthreads (UInt64.toNat.inj he)
  refine ⟨lock, hlock, ?_⟩
  rw [run_result hp, hmore, List.range_succ_eq_map, List.map_cons,
    show UInt64.ofNat 0 = 0 from rfl, hresult]
  rfl

end

/-! ## Where the locks of a plan lie -/

/-- Where a lock lies, in bytes. -/
def place (locksPerLevel : Nat) : BenchLock → Nat
  | .flat => 64
  | .shared => 72
  | .reentrant => 80
  | .level i j => 128 + 8 * (i * locksPerLevel + j)

theorem raw_address {n : Nat} {lock : BenchLock} (h : place n lock < 2 ^ 64) :
    (lock.address n).raw.toNat = place n lock := by
  cases lock with
  | level => exact UInt64.toNat_ofNat_of_lt' h
  | _ => rfl

theorem eq_of_place {n : Nat} {a b : BenchLock} (ha : ∀ i j, a = .level i j → j < n)
    (hb : ∀ i j, b = .level i j → j < n) (h : place n a = place n b) : a = b := by
  cases a with
  | level i j =>
    cases b with
    | level i' j' =>
      have hj := ha i j rfl
      have hj' := hb i' j' rfl
      simp only [place] at h
      have hsame : n * i + j = n * i' + j' := by rw [Nat.mul_comm n, Nat.mul_comm n]; omega
      have hi := congrArg (· / n) hsame
      simp only [Nat.mul_add_div (Nat.zero_lt_of_lt hj), Nat.div_eq_of_lt hj, Nat.div_eq_of_lt hj',
        Nat.add_zero] at hi
      subst hi
      rw [Nat.add_left_cancel hsame]
    | _ => simp only [place] at h; omega
  | flat | shared | reentrant =>
    cases b with
    | level => simp only [place] at h; omega
    | flat | shared | reentrant => simp [place] at h ⊢

/-- The locks of a hierarchy that fits into memory have identities of their own. -/
theorem site_injOn {levels locksPerLevel depth : UInt64}
    (hload : p.workload = .hierarchical levels locksPerLevel depth)
    (hroom : 128 + 8 * (levels.toNat * locksPerLevel.toNat) ≤ 2 ^ 64) (hash : LockId → UInt64)
    (sizing : PoolSizing) (processors : UInt64) :
    Set.InjOn (p.site hash sizing processors).address {lock | p.HasLock lock} := by
  have hindex : ∀ {lock}, p.HasLock lock → ∀ i j, lock = .level i j →
      i < levels.toNat ∧ j < locksPerLevel.toNat := by
    rintro _ h i j rfl
    unfold HasLock at h
    rwa [hload] at h
  have hplace : ∀ {lock}, p.HasLock lock → place locksPerLevel.toNat lock < 2 ^ 64 := by
    intro lock h
    cases lock with
    | level i j =>
      obtain ⟨hi, hj⟩ := hindex h i j rfl
      have hle := Nat.mul_le_mul_right locksPerLevel.toNat (Nat.succ_le_of_lt hi)
      rw [Nat.succ_mul] at hle
      simp only [place]
      omega
    | _ => simp only [place]; omega
  intro a ha b hb he
  simp only [site, hload, Workload.locksPerLevel] at he
  have hsame := congrArg (fun id : LockId => id.raw.toNat) he
  simp only [raw_address (hplace ha), raw_address (hplace hb)] at hsame
  exact eq_of_place (fun i j h => (hindex ha i j h).2) (fun i j h => (hindex hb i j h).2) hsame

/-! ## The crew of a plan -/

/-- What can be said of a run before it is over. -/
structure GoesWell (p : Plan) (site : Site) (c : Crew) : Prop where
  /-- A worker that is through has done its share, or was refused one lock too many. -/
  reports : ∀ ix result, c.workers ix = .finished result →
    result = .ok (p.share (UInt64.ofNat ix)) ∨
    p.Overflows ∧ ∃ lock, p.HasLock lock ∧
      result = .error (.refused (.capacityExceeded (site.address lock) tableCapacity))
  /-- Adding one more share does not wrap around. -/
  total : ∀ ix total failure, c.supervisor = .collecting ix total failure →
    ix < p.threads.toNat →
    total.toNat + (p.share (UInt64.ofNat ix)).toNat ≤ p.iterations.toNat
  /-- The run can be ended. -/
  ends : ∃ moves c' outcome, (∀ reason, .refuse reason ∉ moves) ∧ c.play moves = some c' ∧
    c'.supervisor = .done outcome

/-- How a run has to end. -/
structure EndsWell (p : Plan) (site : Site) (c : Crew) (outcome : Except RunFault UInt64) :
    Prop where
  completed : ¬ p.Overflows → outcome = .ok p.iterations
  refused : p.Overflows → ∃ lock, p.HasLock lock ∧
    outcome = .error (.shield (.capacityExceeded (site.address lock) tableCapacity))
  auto : p.strategy = .auto → outcome = .ok p.iterations
  /-- Interleaving makes no difference. -/
  agrees : outcome = (p.run site).result
  unlocked : ∀ lock, c.occupancy lock = []
  finished : ∀ ix < p.threads.toNat, (c.workers ix).isFinished = true
  emptied : ∀ ix, (c.shifts ix).timed.holdings = []

theorem crew_going (hp : p.validate = .ok ()) (hstarted : ∀ reason, .refuse reason ∉ moves)
    (h : (p.crew site).play moves = some c) :
    c.Going p.threads.toNat fun ix => p.shift site (UInt64.ofNat ix) := by
  have horderly := fun ix : Nat =>
    (p.shift_lawful (runnable hp) site (UInt64.ofNat ix)).orderly
  have hunbroken := fun ix : Nat => (shift_unbroken hp site (UInt64.ofNat ix)).1
  exact Crew.Going.play horderly
    ⟨.initial .., .initial .., .initial _ hunbroken, _, .initial ..⟩ hstarted h

section

variable (hp : p.validate = .ok ()) (hids : Set.InjOn site.address {lock | p.HasLock lock})
  (hgoing : c.Going p.threads.toNat fun ix => p.shift site (UInt64.ofNat ix))
include hp hids hgoing

theorem goesWell_of_going : p.GoesWell site c := by
  obtain ⟨hthreads, -, -⟩ := validate_ok hp
  have hshifts := hgoing.manned.shifts
  refine ⟨fun ix result hw => ?_, fun ix total failure hs hix => ?_, hgoing.ends fun ix =>
    (p.shift_lawful (runnable hp) site (UInt64.ofNat ix)).orderly⟩
  · rw [hgoing.smooth.reports ix result hw, hshifts]
    by_cases ho : p.Overflows
    · rcases result_of_overflows hp hids ho (UInt64.ofNat ix) with hrefused | ⟨-, hnothing⟩
      · exact .inr ⟨ho, hrefused⟩
      · exact .inl hnothing
    · exact .inl (result_of_not_overflows hp hids ho _)
  · have hsums := hgoing.smooth.sumsUp
    unfold Crew.SumsUp at hsums
    rw [hs] at hsums
    have hbounded := hsums.bounded
    have hle := sum_share_le hthreads (Nat.succ_le_of_lt hix)
    simp only [hshifts, share_shift] at hbounded
    rw [Finset.sum_range_succ] at hle
    omega

theorem endsWell_of_going (hdone : c.supervisor = .done outcome) : p.EndsWell site c outcome := by
  obtain ⟨held, ho⟩ := hgoing.ordered
  have hsums := hgoing.smooth.sumsUp
  unfold Crew.SumsUp at hsums
  rw [hdone] at hsums
  obtain ⟨hfinished, hsum⟩ := hsums
  have hagrees : outcome = (p.run site).result := by
    rw [← hsum, run_result hp, Crew.results, hgoing.manned.size, hgoing.manned.shifts]
  have hcompleted : ¬ p.Overflows → outcome = .ok p.iterations := fun hno =>
    hagrees.trans (run_of_not_overflows hp hids hno)
  refine ⟨hcompleted, fun hover => ?_, fun hauto => hcompleted (not_overflows_of_auto hauto),
    hagrees, fun lock => ?_, fun ix hix => hfinished ix (hgoing.manned.size ▸ hix), fun ix => ?_⟩
  · rw [hagrees]
    exact run_of_overflows hp hids hover
  · refine List.eq_nil_iff_forall_not_mem.mpr fun ix hin => ?_
    -- whoever is inside a lock is at work, and nobody is any more
    have hwork := ho.working_of_mem hin
    have hix : ix < c.size := hgoing.manned.below (WorkerStage.underWay_of_working hwork)
    have hend := hfinished ix hix
    cases hw : c.workers ix with
    | finished => rw [hw] at hwork; cases hwork
    | _ => rw [hw] at hend; cases hend
  · rw [hgoing.manned.shifts]
    exact (shift_unbroken hp site (UInt64.ofNat ix)).2

end

/-- **The outcome of a run** whose workers can all be started and whose locks all have identities of
their own, however the workers choose and interleave. -/
theorem crew_outcome (hp : p.validate = .ok ())
    (hids : Set.InjOn site.address {lock | p.HasLock lock})
    (hstarted : ∀ reason, .refuse reason ∉ moves) (h : (p.crew site).play moves = some c) :
    p.GoesWell site c ∧ ∀ outcome, c.supervisor = .done outcome → p.EndsWell site c outcome := by
  have hgoing := crew_going hp hstarted h
  exact ⟨goesWell_of_going hp hids hgoing, fun _ => endsWell_of_going hp hids hgoing⟩

/-- Two workers climb six levels with room for four locks. -/
theorem crew_outcome_stair :
    let p : Plan := ⟨2, 2, 1, 0, .shieldedStrict, .hierarchical 6 1 6, .bounded, false, 0⟩
    let site := p.site (fun _ => 0) .standard 1
    ∃ moves c lock, (p.crew site).play moves = some c ∧
      c.supervisor = .done (.error (.shield (.capacityExceeded (site.address lock) 4))) ∧
      ∀ lock, c.occupancy lock = [] := by
  intro p site
  have hids : Set.InjOn site.address {lock | p.HasLock lock} := site_injOn rfl (by decide) _ _ _
  have hstart : (p.crew site).play [] = some (p.crew site) := rfl
  obtain ⟨hgoes, -⟩ := crew_outcome rfl hids (fun _ => List.not_mem_nil) hstart
  obtain ⟨moves, c, outcome, hstarted, hplay, hdone⟩ := hgoes.ends
  obtain ⟨-, hends⟩ := crew_outcome rfl hids hstarted hplay
  have hover : p.Overflows := ⟨.inl rfl, ⟨6, 1, 6, rfl, by decide⟩, rfl⟩
  obtain ⟨lock, -, hrefused⟩ := (hends outcome hdone).refused hover
  exact ⟨moves, c, lock, hplay, hdone.trans (by rw [hrefused]; rfl), (hends outcome hdone).unlocked⟩

end Plan

end LockElision
