import LockElision.Proofs.Bench.Allocation
import LockElision.Proofs.Config.Environment

/-!
# What a launch runs and what it refuses

Three checks stand between the command line and a run: the settings from the environment are
checked when they are read, the sizing that is made from them when it is installed, the plan when it
is run. The sizing of accepted settings is valid, and enlarged for a walk it stays so unless the
walk is deeper than the largest pool (`Launch.sizingFor_valid_iff`). Within that depth the program
comes to its plan, and the plan's own check decides. A deeper walk is refused for its pool before
the plan is looked at, though nothing else may stand against running it (`Launch.runs_or_refuses`).
-/

namespace LockElision

theorem Plan.run_opening {p : Plan} (h : p.validate = .ok ()) (site : Site) :
    (p.run site).opening =
      (RunSpan.start 0 p.workload.name p.threads).opened ++ [p.startingRun] := by
  unfold run
  rw [h]

theorem Plan.run_refused {p : Plan} {fault : ConfigFault} (h : p.validate = .error fault)
    (site : Site) : p.run site = ⟨[], [], [], .error (.shield fault.toFault)⟩ := by
  unfold run
  rw [h]

namespace Launch

/-! ## Sizings -/

section Sizings

variable {base : PoolSizing} {w : Workload}

theorem bucketCount_sizingFor (base : PoolSizing) (w : Workload) :
    (sizingFor base w).bucketCount = base.bucketCount := by
  unfold sizingFor
  split <;> rfl

theorem poolSize_sizingFor_le (base : PoolSizing) (w : Workload) :
    (sizingFor base w).poolSize.toNat ≤ poolLimit ↔
      base.poolSize.toNat ≤ poolLimit ∧ w.fanout.toNat ≤ poolLimit := by
  cases w with
  | hierarchical levels locksPerLevel depth =>
    show (max base.poolSize depth).toNat ≤ poolLimit ↔ _
    rw [UInt64.toNat_max]
    exact Nat.max_le
  | _ => exact (and_iff_left (show (1 : UInt64).toNat ≤ poolLimit by decide)).symm

theorem sizingFor_valid_iff (h : base.Valid) :
    (sizingFor base w).Valid ↔ w.fanout.toNat ≤ poolLimit := by
  have hpool := poolSize_sizingFor_le base w
  constructor
  · exact fun hvalid => (hpool.mp hvalid.pool).2
  · intro hdepth
    refine ⟨hpool.mpr ⟨h.pool, hdepth⟩, ?_, ?_⟩
    · rw [bucketCount_sizingFor]
      exact h.some_bucket
    · rw [bucketCount_sizingFor]
      exact h.buckets

/-- Beyond the largest pool it is the depth of the walk that is refused. -/
theorem validate_sizingFor_deep (h : base.Valid) (hdeep : poolLimit < w.fanout.toNat) :
    (sizingFor base w).validate = .error (.poolTooLarge w.fanout.toNat) := by
  have hsize : (sizingFor base w).poolSize.toNat = w.fanout.toNat := by
    cases w with
    | hierarchical levels locksPerLevel depth =>
      show (max base.poolSize depth).toNat = depth.toNat
      rw [UInt64.toNat_max]
      exact Nat.max_eq_right (h.pool.trans (Nat.le_of_lt hdeep))
    | _ => exact absurd hdeep (show ¬ poolLimit < (1 : UInt64).toNat by decide)
  refine PoolSizing.validate_error_iff.mpr (.inl ?_)
  rw [hsize]
  exact ⟨hdeep, rfl⟩

end Sizings

/-! ## Launches -/

variable {env : Environment} {arguments : List String} {s : Settings} {a : Arguments}

/-- What a program has logged when it reads its arguments. -/
def greeting (env : Environment) : List LogLine :=
  let logging := Logging.ofEnvironment env
  logging.filter.lines [logging.opening]

theorem finish_refused (l : Launch) (fault : Fault) (seconds : Float) :
    l.finish ⟨[], [], [], .error (.shield fault)⟩ seconds =
      ⟨1, [], some ⟨"workload run failed", some fault.code⟩, l.log⟩ := by
  have hlines : l.logging.filter.lines [] = [] := rfl
  unfold finish
  simp [hlines, codeOf]

section Preparing

variable (hs : env.settings = .ok s) (ha : Arguments.read arguments = .ok a) (processors : UInt64)
include hs ha

theorem prepare_ok
    (h : (sizingFor s.pool (a.plan processors s.strategy).workload).validate = .ok ()) :
    ∃ l, prepare processors env arguments = .ok l ∧ l.plan = a.plan processors s.strategy ∧
      l.sizing = sizingFor s.pool l.plan.workload := by
  unfold prepare
  simp only [ha, hs, pure_bind, h]
  exact ⟨_, rfl, rfl, rfl⟩

theorem prepare_error {fault : ConfigFault}
    (h : (sizingFor s.pool (a.plan processors s.strategy).workload).validate = .error fault) :
    prepare processors env arguments =
      .error ⟨1, [], some ⟨fault.toFault.code, some fault.toFault.code⟩, greeting env⟩ := by
  unfold prepare
  simp only [ha, hs, pure_bind, h]
  rfl

/-- **What comes to its plan and what does not.** Of a walk within the largest pool, and of every
other workload, the sizing gets installed in a process that has none, and the plan's check decides:
the run starts with that sizing, or the program ends with the plan's own fault. A deeper walk ends
with the fault of its sizing, whatever the check would say of the plan. -/
theorem runs_or_refuses (hash : LockId → UInt64) (seconds : Float) :
    let p := a.plan processors s.strategy
    let sizing := sizingFor s.pool p.workload
    (p.workload.fanout.toNat ≤ poolLimit →
      (∀ (w : World) (t : ThreadIx), w.setting = none → w.start t (.install sizing) =
        some ⟨{ w with setting := some sizing }, .installed, [sizing.installed]⟩) ∧
      ∃ l, prepare processors env arguments = .ok l ∧
        l.run hash processors = p.run (p.site hash sizing processors) ∧
        (p.validate = .ok () → (l.run hash processors).opening =
          (RunSpan.start 0 p.workload.name p.threads).opened ++ [p.startingRun]) ∧
        ∀ fault, p.validate = .error fault →
          l.run hash processors = ⟨[], [], [], .error (.shield fault.toFault)⟩ ∧
          launch hash processors seconds env arguments =
            ⟨1, [], some ⟨"workload run failed", some fault.toFault.code⟩, l.log⟩) ∧
    (poolLimit < p.workload.fanout.toNat →
      (∀ (w : World) (t : ThreadIx), w.start t (.install sizing) =
        some ⟨w, .refused (ConfigFault.poolTooLarge p.workload.fanout.toNat).toFault, []⟩) ∧
      launch hash processors seconds env arguments =
        ⟨1, [], some ⟨"shield::invalid_config", some "shield::invalid_config"⟩, greeting env⟩) := by
  intro p sizing
  have hbase := Environment.settings_valid hs
  constructor
  · intro hdepth
    have hvalid : sizing.Valid := (sizingFor_valid_iff hbase).mpr hdepth
    obtain ⟨l, hl, hplan, hsizing⟩ :=
      prepare_ok hs ha processors (PoolSizing.validate_ok_iff.mpr hvalid)
    have hrun : l.run hash processors = p.run (p.site hash sizing processors) := by
      rw [run, hsizing, hplan]
    refine ⟨fun w t hnone => World.start_install_first hvalid hnone, l, hl, hrun, ?_, ?_⟩
    · intro hp
      rw [hrun, Plan.run_opening hp]
    · intro fault hp
      rw [hrun, Plan.run_refused hp]
      refine ⟨rfl, ?_⟩
      unfold launch
      rw [hl]
      simp only
      rw [hrun, Plan.run_refused hp, finish_refused]
  · intro hdeep
    have hfault := validate_sizingFor_deep hbase hdeep
    constructor
    · intro w t
      simp only [World.start, sizing, hfault]
    · unfold launch
      rw [prepare_error hs ha processors hfault]
      rfl

end Preparing

/-- A valid plan with a walk of 70000 levels is refused for its pool. -/
theorem runs_or_refuses_deep :
    let env : Environment := fun _ => .unset
    let arguments := ["hierarchical", "--levels=70000", "--depth=70000", "-t1"]
    ∃ a, env.settings = .ok .standard ∧ Arguments.read arguments = .ok a ∧
      (a.plan 1 .auto).validate = .ok () ∧ poolLimit < (a.plan 1 .auto).workload.fanout.toNat ∧
      launch (fun _ => 0) 1 0 env arguments =
        ⟨1, [], some ⟨"shield::invalid_config", some "shield::invalid_config"⟩, greeting env⟩ := by
  intro env arguments
  have hs : env.settings = .ok .standard := rfl
  have ha : Arguments.read arguments =
      .ok ⟨.hierarchical, { threads := some 1, levels := some 70000, depth := some 70000 }⟩ := by
    decide +kernel
  have hdeep : poolLimit < (70000 : UInt64).toNat := by decide
  exact ⟨_, hs, ha, by decide, hdeep, ((runs_or_refuses hs ha 1 (fun _ => 0) 0).2 hdeep).2⟩

end Launch

end LockElision
