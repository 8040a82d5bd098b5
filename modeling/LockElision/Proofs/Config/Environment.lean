import LockElision.Config.Environment
import LockElision.Proofs.Process.Setting
import LockElision.Proofs.Text.Numeral
import LockElision.Proofs.Text.Spelling

/-!
# The grammar of the environment

What the three variables may say, put without reading them: a strategy by one of five words in any
mixture of cases, numbers as numerals with white space around them (`Environment.Says`). Settings
are read exactly from the environments that say such things within bounds (`Environment.Gives`). In
every other environment one fault comes first, the strategy's before the numbers', and what is
misspelt before what is out of bounds (`Environment.FirstFault`).
-/

namespace LockElision

/-! ## Strategies -/

namespace Strategy

/-- The words for the strategies. -/
def words : List (String × Strategy) :=
  [("bounded", bounded), ("array", bounded), ("pooled", pooled), ("hash", pooled), ("auto", auto)]

/-- A text is a word for a strategy, in any mixture of cases. -/
def Named (text : String) (s : Strategy) : Prop := ∃ word, (word, s) ∈ words ∧ SameLetters text word

variable {text : String} {s : Strategy} {fault : ConfigFault}

/-- The words are all in lower case. -/
theorem named_iff : Named text s ↔ (text.map Char.toLower, s) ∈ words := by
  have hlower : ∀ entry ∈ words, entry.1.map Char.toLower = entry.1 := by decide +kernel
  constructor
  · rintro ⟨word, hword, hsame⟩
    rw [sameLetters_iff.mp hsame, hlower _ hword]
    exact hword
  · intro h
    exact ⟨_, h, sameLetters_iff.mpr (hlower _ h).symm⟩

theorem Named.unique {s' : Strategy} (h : Named text s) (h' : Named text s') : s = s' := by
  have hone : ∀ entry ∈ words, ∀ entry' ∈ words, entry.1 = entry'.1 → entry.2 = entry'.2 := by
    decide
  exact hone _ (named_iff.mp h) _ (named_iff.mp h') rfl

theorem parse_cases (text : String) : (∃ s, Named text s ∧ parse text = .ok s) ∨
    (∀ s, ¬ Named text s) ∧ parse text = .error (.unknownStrategy (text.map Char.toLower)) := by
  simp only [named_iff]
  unfold parse
  generalize text.map Char.toLower = lower
  by_cases hbounded : lower = "bounded" ∨ lower = "array"
  · refine .inl ⟨bounded, ?_, if_pos hbounded⟩
    rcases hbounded with rfl | rfl <;> decide
  · by_cases hpooled : lower = "pooled" ∨ lower = "hash"
    · refine .inl ⟨pooled, ?_, (if_neg hbounded).trans (if_pos hpooled)⟩
      rcases hpooled with rfl | rfl <;> decide
    · by_cases hauto : lower = "auto"
      · refine .inl ⟨auto, ?_, (if_neg hbounded).trans ((if_neg hpooled).trans (if_pos hauto))⟩
        subst hauto
        decide
      · refine .inr ⟨?_, (if_neg hbounded).trans ((if_neg hpooled).trans (if_neg hauto))⟩
        intro s hs
        simp_all [words]

theorem parse_ok_iff : parse text = .ok s ↔ Named text s := by
  rcases parse_cases text with ⟨s', hs', hok⟩ | ⟨hno, herror⟩
  · rw [hok]
    exact ⟨fun h => Except.ok.inj h ▸ hs', fun h => congrArg _ (hs'.unique h)⟩
  · rw [herror]
    exact ⟨nofun, fun h => absurd h (hno s)⟩

theorem parse_error_iff : parse text = .error fault ↔
    (∀ s, ¬ Named text s) ∧ fault = .unknownStrategy (text.map Char.toLower) := by
  rcases parse_cases text with ⟨s, hs, hok⟩ | ⟨hno, herror⟩
  · rw [hok]
    exact ⟨nofun, fun ⟨hno, _⟩ => absurd hs (hno s)⟩
  · rw [herror]
    exact ⟨fun h => ⟨hno, (Except.error.inj h).symm⟩, fun ⟨_, h⟩ => congrArg _ h.symm⟩

end Strategy

/-! ## Variables -/

/-- What a variable says when its text is to mean something: nothing if there is no text. -/
inductive Variable.Says {α : Type} (Means : String → α → Prop) : Variable → Option α → Prop where
  | unset : Says Means .unset none
  | undecodable : Says Means .undecodable none
  | text {raw : String} {a : α} : Means raw a → Says Means (.text raw) (some a)

/-- A text counts if it is a numeral of 64 bits with white space around it. -/
def Counts (raw : String) (n : UInt64) : Prop :=
  ∃ core, Trimmed raw.toList core ∧ Unsigned.Numeral core n.toNat

/-- What keeps a text from counting. -/
def Miscounts (raw : String) (reason : NumberFault) : Prop :=
  ∃ core, Trimmed raw.toList core ∧ Unsigned.Misread UInt64.size core reason

namespace Variable

variable {α : Type} {parse : String → Except ConfigFault α} {Means : String → α → Prop}
  {v : Variable} {said : Option α} {fault : ConfigFault}

/-- Reads the text of a variable if it has one. -/
def read (parse : String → Except ConfigFault α) : Variable → Except ConfigFault (Option α)
  | text raw => (parse raw).map some
  | _ => .ok none

theorem read_text (raw : String) : (text raw).read parse = (parse raw).map some := rfl

theorem read_ok_iff (hparse : ∀ raw a, parse raw = .ok a ↔ Means raw a) :
    v.read parse = .ok said ↔ v.Says Means said := by
  cases v with
  | unset => exact ⟨fun h => Except.ok.inj h ▸ .unset, fun h => by cases h; rfl⟩
  | undecodable => exact ⟨fun h => Except.ok.inj h ▸ .undecodable, fun h => by cases h; rfl⟩
  | text raw =>
    rw [read_text]
    constructor
    · intro h
      cases hp : parse raw with
      | error fault => rw [hp] at h; cases h
      | ok a =>
        rw [hp] at h
        cases h
        exact .text ((hparse raw a).mp hp)
    · intro h
      cases h with
      | text ha => rw [(hparse raw _).mpr ha]; rfl

theorem read_error_iff :
    v.read parse = .error fault ↔ ∃ raw, v = .text raw ∧ parse raw = .error fault := by
  cases v with
  | unset => exact ⟨nofun, nofun⟩
  | undecodable => exact ⟨nofun, nofun⟩
  | text raw =>
    rw [read_text]
    cases hp : parse raw with
    | ok a => simp [Except.map, hp]
    | error fault' => simp [Except.map, hp]

end Variable

namespace Environment

variable {env : Environment} {name raw : String} {n : UInt64} {fault : ConfigFault}

/-- The number in the text of a variable. -/
def numberIn (name raw : String) : Except ConfigFault UInt64 :=
  match Unsigned.parse UInt64.size (trimBlank raw.toList) with
  | .ok n => .ok (UInt64.ofNat n)
  | .error reason => .error (.badNumber name raw reason)

theorem strategy?_eq (env : Environment) :
    env.strategy? = (env "SHIELD_STRATEGY").read Strategy.parse := by
  unfold strategy? Variable.value? Variable.read
  cases env "SHIELD_STRATEGY" <;> rfl

theorem number?_eq (env : Environment) (name : String) :
    env.number? name = (env name).read (numberIn name) := by
  unfold number? Variable.value? Variable.read numberIn
  cases env name with
  | text raw =>
    simp only
    cases Unsigned.parse UInt64.size (trimBlank raw.toList) <;> rfl
  | _ => rfl

theorem numberIn_ok_iff : numberIn name raw = .ok n ↔ Counts raw n := by
  have hparse : ∀ m, Unsigned.parse UInt64.size (trimBlank raw.toList) = .ok m ↔
      Unsigned.Numeral (trimBlank raw.toList) m ∧ m < UInt64.size :=
    fun m => Unsigned.parse_ok_iff (by decide)
  unfold numberIn
  constructor
  · intro h
    split at h
    · rename_i m hm
      obtain ⟨hnumeral, hlt⟩ := (hparse m).mp hm
      obtain rfl := Except.ok.inj h
      refine ⟨_, trimmed_trimBlank _, ?_⟩
      rwa [UInt64.toNat_ofNat_of_lt' hlt]
    · cases h
  · rintro ⟨core, htrimmed, hnumeral⟩
    obtain rfl := trimBlank_eq_iff.mpr htrimmed
    rw [(hparse n.toNat).mpr ⟨hnumeral, n.toNat_lt⟩]
    simp

theorem numberIn_error_iff : numberIn name raw = .error fault ↔
    ∃ reason, Miscounts raw reason ∧ fault = .badNumber name raw reason := by
  have hparse : ∀ reason, Unsigned.parse UInt64.size (trimBlank raw.toList) = .error reason ↔
      Unsigned.Misread UInt64.size (trimBlank raw.toList) reason :=
    fun reason => Unsigned.parse_error_iff (by decide)
  unfold numberIn
  constructor
  · intro h
    split at h
    · cases h
    · rename_i reason hreason
      obtain rfl := Except.error.inj h
      exact ⟨reason, ⟨_, trimmed_trimBlank _, (hparse reason).mp hreason⟩, rfl⟩
  · rintro ⟨reason, ⟨core, htrimmed, hmisread⟩, rfl⟩
    obtain rfl := trimBlank_eq_iff.mpr htrimmed
    rw [(hparse reason).mpr hmisread]

end Environment

/-! ## Settings -/

/-- Settings with other values where some are given. -/
def Settings.overlaid (base : Settings) (strategy : Option Strategy)
    (poolSize buckets : Option UInt64) : Settings :=
  { base with
    strategy := strategy.getD base.strategy
    pool := ⟨poolSize.getD base.pool.poolSize, buckets.getD base.pool.bucketCount⟩ }

namespace Environment

/-- What the three variables say. -/
structure Says (env : Environment) (strategy : Option Strategy) (poolSize buckets : Option UInt64) :
    Prop where
  strategy : (env "SHIELD_STRATEGY").Says Strategy.Named strategy
  poolSize : (env "SHIELD_POOL_SIZE").Says Counts poolSize
  buckets : (env "SHIELD_BUCKETS").Says Counts buckets

/-- The environment says something, and with that in the place of the standard values the settings
are these and within bounds. -/
def Gives (env : Environment) (s : Settings) : Prop :=
  ∃ strategy poolSize buckets, env.Says strategy poolSize buckets ∧
    s = Settings.standard.overlaid strategy poolSize buckets ∧ s.pool.Valid

/-- The first thing that is wrong with an environment, and the text that says so. -/
inductive FirstFault (env : Environment) : ConfigFault → String → Prop where
  | strategy {raw : String} : env "SHIELD_STRATEGY" = .text raw →
      (∀ s, ¬ Strategy.Named raw s) →
      FirstFault env (.unknownStrategy (raw.map Char.toLower))
        ("unknown strategy '" ++ raw.map Char.toLower ++ "' (expected bounded, pooled or auto)")
  | poolSize {strategy : Option Strategy} {raw : String} {reason : NumberFault} :
      (env "SHIELD_STRATEGY").Says Strategy.Named strategy →
      env "SHIELD_POOL_SIZE" = .text raw → Miscounts raw reason →
      FirstFault env (.badNumber "SHIELD_POOL_SIZE" raw reason)
        ("SHIELD_POOL_SIZE=" ++ raw ++ ": " ++ reason.message)
  | buckets {strategy : Option Strategy} {poolSize : Option UInt64} {raw : String}
      {reason : NumberFault} :
      (env "SHIELD_STRATEGY").Says Strategy.Named strategy →
      (env "SHIELD_POOL_SIZE").Says Counts poolSize →
      env "SHIELD_BUCKETS" = .text raw → Miscounts raw reason →
      FirstFault env (.badNumber "SHIELD_BUCKETS" raw reason)
        ("SHIELD_BUCKETS=" ++ raw ++ ": " ++ reason.message)
  | poolTooLarge {strategy : Option Strategy} {poolSize buckets : Option UInt64} {s : Settings} :
      env.Says strategy poolSize buckets →
      s = Settings.standard.overlaid strategy poolSize buckets →
      65536 < s.pool.poolSize.toNat →
      FirstFault env (.poolTooLarge s.pool.poolSize.toNat)
        ("pool_size " ++ toString s.pool.poolSize.toNat ++ " exceeds 65536")
  | bucketsOutOfRange {strategy : Option Strategy} {poolSize buckets : Option UInt64}
      {s : Settings} :
      env.Says strategy poolSize buckets →
      s = Settings.standard.overlaid strategy poolSize buckets →
      s.pool.poolSize.toNat ≤ 65536 →
      s.pool.bucketCount = 0 ∨ 65536 < s.pool.bucketCount.toNat →
      FirstFault env (.bucketsOutOfRange s.pool.bucketCount.toNat)
        ("bucket_count must be in 1..=65536, got " ++ toString s.pool.bucketCount.toNat)

variable {env : Environment} {strategy : Option Strategy} {poolSize buckets count : Option UInt64}
  {name : String} {s : Settings} {fault : ConfigFault} {text : String}

theorem strategy?_ok_iff :
    env.strategy? = .ok strategy ↔ (env "SHIELD_STRATEGY").Says Strategy.Named strategy := by
  rw [strategy?_eq]
  exact Variable.read_ok_iff fun raw s => Strategy.parse_ok_iff

theorem strategy?_error_iff : env.strategy? = .error fault ↔
    ∃ raw, env "SHIELD_STRATEGY" = .text raw ∧ (∀ s, ¬ Strategy.Named raw s) ∧
      fault = .unknownStrategy (raw.map Char.toLower) := by
  rw [strategy?_eq, Variable.read_error_iff]
  simp only [Strategy.parse_error_iff]

theorem number?_ok_iff : env.number? name = .ok count ↔ (env name).Says Counts count := by
  rw [number?_eq]
  exact Variable.read_ok_iff fun raw n => numberIn_ok_iff

theorem number?_error_iff : env.number? name = .error fault ↔
    ∃ raw, env name = .text raw ∧ ∃ reason, Miscounts raw reason ∧
      fault = .badNumber name raw reason := by
  rw [number?_eq, Variable.read_error_iff]
  simp only [numberIn_error_iff]

theorem settings_eq (env : Environment) : env.settings =
    match env.strategy? with
    | .error fault => .error fault
    | .ok strategy =>
      match env.number? "SHIELD_POOL_SIZE" with
      | .error fault => .error fault
      | .ok poolSize =>
        match env.number? "SHIELD_BUCKETS" with
        | .error fault => .error fault
        | .ok buckets =>
          match (Settings.standard.overlaid strategy poolSize buckets).validate with
          | .error fault => .error fault
          | .ok () => .ok (Settings.standard.overlaid strategy poolSize buckets) := by
  unfold settings
  cases env.strategy? with
  | error fault => rfl
  | ok strategy =>
    cases env.number? "SHIELD_POOL_SIZE" with
    | error fault => rfl
    | ok poolSize =>
      cases env.number? "SHIELD_BUCKETS" with
      | error fault => rfl
      | ok buckets =>
        show (do
          (Settings.standard.overlaid strategy poolSize buckets).validate
          return Settings.standard.overlaid strategy poolSize buckets) = _
        simp only
        cases (Settings.standard.overlaid strategy poolSize buckets).validate <;> rfl

theorem settings_of_said (h : env.Says strategy poolSize buckets) : env.settings =
    match (Settings.standard.overlaid strategy poolSize buckets).validate with
    | .error fault => .error fault
    | .ok () => .ok (Settings.standard.overlaid strategy poolSize buckets) := by
  rw [settings_eq, strategy?_ok_iff.mpr h.strategy]
  simp only
  rw [number?_ok_iff.mpr h.poolSize]
  simp only
  rw [number?_ok_iff.mpr h.buckets]

theorem says_or_fault (env : Environment) :
    (∃ strategy poolSize buckets, env.Says strategy poolSize buckets) ∨
    ∃ fault text, env.settings = .error fault ∧ env.FirstFault fault text := by
  rw [settings_eq]
  cases hstrategy : env.strategy? with
  | error fault =>
    obtain ⟨raw, hraw, hno, rfl⟩ := strategy?_error_iff.mp hstrategy
    exact .inr ⟨_, _, rfl, .strategy hraw hno⟩
  | ok strategy =>
    have hchosen := strategy?_ok_iff.mp hstrategy
    cases hpool : env.number? "SHIELD_POOL_SIZE" with
    | error fault =>
      obtain ⟨raw, hraw, reason, hreason, rfl⟩ := number?_error_iff.mp hpool
      exact .inr ⟨_, _, rfl, .poolSize hchosen hraw hreason⟩
    | ok poolSize =>
      have hcount := number?_ok_iff.mp hpool
      cases hbuckets : env.number? "SHIELD_BUCKETS" with
      | error fault =>
        obtain ⟨raw, hraw, reason, hreason, rfl⟩ := number?_error_iff.mp hbuckets
        exact .inr ⟨_, _, rfl, .buckets hchosen hcount hraw hreason⟩
      | ok buckets => exact .inl ⟨_, _, _, hchosen, hcount, number?_ok_iff.mp hbuckets⟩

theorem settings_ok_iff : env.settings = .ok s ↔ env.Gives s := by
  constructor
  · intro h
    rcases says_or_fault env with ⟨strategy, poolSize, buckets, hsays⟩ | ⟨fault, text, herror, -⟩
    · rw [settings_of_said hsays] at h
      split at h
      · cases h
      · rename_i hvalid
        obtain rfl := Except.ok.inj h
        exact ⟨strategy, poolSize, buckets, hsays, rfl, PoolSizing.validate_ok_iff.mp hvalid⟩
    · rw [h] at herror
      cases herror
  · rintro ⟨strategy, poolSize, buckets, hsays, rfl, hvalid⟩
    rw [settings_of_said hsays, Settings.validate, PoolSizing.validate_ok_iff.mpr hvalid]

theorem settings_valid (h : env.settings = .ok s) : s.pool.Valid := by
  obtain ⟨strategy, poolSize, buckets, -, -, hvalid⟩ := settings_ok_iff.mp h
  exact hvalid

theorem FirstFault.settings (h : env.FirstFault fault text) : env.settings = .error fault := by
  cases h with
  | strategy hraw hno => rw [settings_eq, strategy?_error_iff.mpr ⟨_, hraw, hno, rfl⟩]
  | poolSize hchosen hraw hreason =>
    rw [settings_eq, strategy?_ok_iff.mpr hchosen]
    simp only
    rw [number?_error_iff.mpr ⟨_, hraw, _, hreason, rfl⟩]
  | buckets hchosen hcount hraw hreason =>
    rw [settings_eq, strategy?_ok_iff.mpr hchosen]
    simp only
    rw [number?_ok_iff.mpr hcount]
    simp only
    rw [number?_error_iff.mpr ⟨_, hraw, _, hreason, rfl⟩]
  | poolTooLarge hsays hs hlarge =>
    subst hs
    rw [settings_of_said hsays, Settings.validate,
      PoolSizing.validate_error_iff.mpr (.inl ⟨hlarge, rfl⟩)]
  | bucketsOutOfRange hsays hs hpool hout =>
    subst hs
    rw [settings_of_said hsays, Settings.validate,
      PoolSizing.validate_error_iff.mpr (.inr ⟨hpool, hout, rfl⟩)]

theorem exists_firstFault (h : env.settings = .error fault) :
    ∃ text, env.FirstFault fault text := by
  rcases says_or_fault env with ⟨strategy, poolSize, buckets, hsays⟩ | ⟨other, text, herror, hfirst⟩
  · rw [settings_of_said hsays] at h
    split at h
    · rename_i hinvalid
      obtain rfl := Except.error.inj h
      rcases PoolSizing.validate_error_iff.mp hinvalid with ⟨hlarge, rfl⟩ | ⟨hpool, hout, rfl⟩
      · exact ⟨_, .poolTooLarge hsays rfl hlarge⟩
      · exact ⟨_, .bucketsOutOfRange hsays rfl hpool hout⟩
    · cases h
  · rw [h] at herror
    obtain rfl := Except.error.inj herror
    exact ⟨text, hfirst⟩

theorem FirstFault.toFault (h : env.FirstFault fault text) :
    fault.toFault = .invalidConfig text := by
  have hexceeds : " exceeds " ++ toString poolLimit = " exceeds 65536" := by decide +kernel
  have hrange : "bucket_count must be in 1..=" ++ toString poolLimit ++ ", got " =
      "bucket_count must be in 1..=65536, got " := by decide +kernel
  unfold ConfigFault.toFault ConfigFault.message
  cases h with
  | strategy => rfl
  | poolSize => rfl
  | buckets => rfl
  | poolTooLarge =>
    simp only
    rw [String.append_assoc, hexceeds]
  | bucketsOutOfRange =>
    simp only
    rw [hrange]

/-- **The grammar of the environment.** Settings are read from the environments that give some, and
they are the standard ones but for what is said; they are valid, and the first process to ask for
their sizing gets it installed. In every other environment the first fault is answered, in the words
given for it. -/
theorem settings_grammar (env : Environment) :
    (∀ s, env.settings = .ok s ↔ env.Gives s) ∧
    (∀ s, env.Gives s → s.validate = .ok () ∧ ∀ (w : World) (t : ThreadIx), w.setting = none →
      w.start t (.install s.pool) =
        some ⟨{ w with setting := some s.pool }, .installed, [s.pool.installed]⟩) ∧
    (∀ fault, env.settings = .error fault ↔ ∃ text, env.FirstFault fault text) ∧
    ∀ fault text, env.FirstFault fault text → fault.toFault = .invalidConfig text := by
  refine ⟨fun s => settings_ok_iff, fun s h => ?_, fun fault => ?_, fun fault text h => h.toFault⟩
  · obtain ⟨strategy, poolSize, buckets, -, -, hvalid⟩ := h
    exact ⟨PoolSizing.validate_ok_iff.mpr hvalid, fun w t => World.start_install_first hvalid⟩
  · exact ⟨exists_firstFault, fun ⟨text, h⟩ => h.settings⟩

/-- A strategy in mixed case, a number with a sign, zeros and white space, and bytes that are no
text. -/
example : Environment.settings (fun
      | "SHIELD_STRATEGY" => .text "HaSh"
      | "SHIELD_POOL_SIZE" => .text " +0064\n"
      | _ => .undecodable) = .ok ⟨.pooled, 1, ⟨64, 16⟩⟩ := by decide +kernel

end Environment

end LockElision
