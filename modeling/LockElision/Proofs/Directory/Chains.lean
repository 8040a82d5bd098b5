import LockElision.Proofs.Directory.Command

/-!
# The chains of a pooled directory

A directory has as many chains as buckets were asked for, rounded up to a power of two, and keeps
them. So the hash of a lock, masked by one less, is always the index of a chain, and a node hangs in
the chain its lock has this way (`Bucketed`). No two locks share a node and none has two, whichever
locks collide, which makes the directory a finite map (`answers_as_finite_map`).

What a basic command can do to a pooled directory is listed once (`Change`).
-/

namespace LockElision

/-! ## Rounding up -/

/-- Doubling a power of two until it reaches `n` finds the least one that does. -/
theorem isLeast_doubling {go : (n power : Nat) → 0 < power → Nat}
    (hgo : ∀ n power h, go n power h =
      if power < n then go n (power * 2) (Nat.mul_pos h Nat.two_pos) else power)
    {n power : Nat} (h : 0 < power) (hpower : power.isPowerOfTwo)
    (hleast : ∀ p, p.isPowerOfTwo → n ≤ p → power ≤ p) :
    IsLeast {p | p.isPowerOfTwo ∧ n ≤ p} (go n power h) := by
  induction hgap : n - power using Nat.strong_induction_on generalizing power with
  | _ gap ih =>
    rw [hgo]
    split
    case isTrue hbelow =>
      refine ih _ (by omega) (Nat.mul_pos h Nat.two_pos)
        (Nat.isPowerOfTwo_mul_two_of_isPowerOfTwo hpower) (fun p hp hn => ?_) rfl
      obtain ⟨i, rfl⟩ := hpower
      obtain ⟨j, rfl⟩ := hp
      have hij : i < j := (Nat.pow_lt_pow_iff_right Nat.one_lt_two).mp (hbelow.trans_le hn)
      rw [← Nat.pow_succ]
      exact Nat.pow_le_pow_right Nat.two_pos hij
    case isFalse hreached =>
      exact ⟨⟨hpower, Nat.le_of_not_lt hreached⟩, fun p hp => hleast p hp.1 hp.2⟩

theorem isLeast_nextPowerOfTwo (n : Nat) :
    IsLeast {p | p.isPowerOfTwo ∧ n ≤ p} n.nextPowerOfTwo := by
  unfold Nat.nextPowerOfTwo
  refine isLeast_doubling (fun n power h => ?_) _ Nat.isPowerOfTwo_one
    fun p hp _ => Nat.pos_of_isPowerOfTwo hp
  -- the loop has no name here, so its equation is that of the recursion it is made by
  with_unfolding_all
    exact @WellFounded.Nat.fix_eq (PSigma fun power : Nat => power > 0) _ _ _ ⟨power, h⟩

namespace PooledDirectory

open Directory LawfulDirectory

variable {d d' : PooledDirectory} {lock : LockId} {node : Node} {k : Nat}

theorem isLeast_chains_create (hash : LockId → UInt64) (poolSize buckets : Nat) :
    IsLeast {p | p.isPowerOfTwo ∧ buckets ≤ p} (create hash poolSize buckets).chains.size := by
  have hcount : (create hash poolSize buckets).chains.size = (max buckets 1).nextPowerOfTwo :=
    Array.size_replicate
  obtain ⟨⟨hpower, hle⟩, hleast⟩ := isLeast_nextPowerOfTwo (max buckets 1)
  rw [hcount]
  refine ⟨⟨hpower, (Nat.le_max_left ..).trans hle⟩, fun p hp => hleast ⟨hp.1, ?_⟩⟩
  exact Nat.max_le.mpr ⟨hp.2, Nat.pos_of_isPowerOfTwo hp.1⟩

/-! ## Drawing a node -/

theorem drawNode_of_dry (hf : d.free = []) : d.drawNode = (⟨Holding.vacant, .dynamic⟩,
    { d with dynamicInUse := d.dynamicInUse + 1, dynamicAllocations := d.dynamicAllocations + 1 },
    some ⟨d.poolSize, d.size⟩) := by
  unfold drawNode; simp only [hf]

theorem drawNode_of_free {rest : List Node} (hf : d.free = node :: rest) :
    d.drawNode = (node, { d with free := rest, freeCount := d.freeCount - 1 }, none) := by
  unfold drawNode; simp only [hf]

theorem place_eq_drawn (d : PooledDirectory) (lock : LockId) : d.place lock = .placed
    { d.drawNode.2.1.editChain lock (⟨Holding.first lock, d.drawNode.1.origin⟩ :: ·) with
      size := d.drawNode.2.1.size + 1 } d.drawNode.2.2 := rfl

theorem drawNode_keeps (d : PooledDirectory) :
    d.drawNode.2.1.hash = d.hash ∧ d.drawNode.2.1.chains = d.chains ∧
      d.drawNode.2.1.poolSize = d.poolSize := by
  cases hf : d.free with
  | nil => rw [drawNode_of_dry hf]; exact ⟨rfl, rfl, rfl⟩
  | cons node rest => rw [drawNode_of_free hf]; exact ⟨rfl, rfl, rfl⟩

theorem place_front {notice : Option Exhaustion} (hp : d.place lock = .placed d' notice) :
    d'.hash = d.hash ∧
      d'.chains = (d.editChain lock (⟨Holding.first lock, d.drawNode.1.origin⟩ :: ·)).chains := by
  obtain ⟨hhash, hchains, -⟩ := drawNode_keeps d
  rw [place_eq_drawn] at hp
  obtain ⟨rfl, -⟩ := Placement.placed.inj hp
  refine ⟨hhash, ?_⟩
  show (d.drawNode.2.1.editChain lock _).chains = _
  rw [chains_editChain, chains_editChain, bucketIndex, bucketIndex, hhash, hchains]

/-! ## What stays as it was made -/

@[simp] theorem poolSize_returnNode (d : PooledDirectory) (node : Node) :
    (d.returnNode node).poolSize = d.poolSize := by
  unfold returnNode; split <;> rfl

/-- The second directory was made as the first: it has the same hash, as many chains and as large a
pool. -/
structure Alike (d d' : PooledDirectory) : Prop where
  hash : d'.hash = d.hash
  chains : d'.chains.size = d.chains.size
  pool : d'.poolSize = d.poolSize

theorem Alike.refl (d : PooledDirectory) : d.Alike d := ⟨rfl, rfl, rfl⟩

theorem Alike.trans {d'' : PooledDirectory} (h : d.Alike d') (h' : d'.Alike d'') : d.Alike d'' :=
  ⟨h'.hash.trans h.hash, h'.chains.trans h.chains, h'.pool.trans h.pool⟩

theorem alike_editChain (d : PooledDirectory) (lock : LockId) (f : List Node → List Node) :
    d.Alike (d.editChain lock f) :=
  ⟨rfl, Array.size_modify, rfl⟩

theorem alike_returnNode (d : PooledDirectory) (node : Node) : d.Alike (d.returnNode node) :=
  ⟨hash_returnNode .., congrArg Array.size (chains_returnNode ..), poolSize_returnNode ..⟩

theorem alike_place {notice : Option Exhaustion} (hp : d.place lock = .placed d' notice) :
    d.Alike d' := by
  obtain ⟨hhash, hchains⟩ := place_front hp
  rw [place_eq_drawn] at hp
  obtain ⟨rfl, -⟩ := Placement.placed.inj hp
  exact ⟨hhash, (congrArg Array.size hchains).trans Array.size_modify, (drawNode_keeps d).2.2⟩

theorem alike_detach (d : PooledDirectory) (node : Node) : d.Alike (d.detach node) :=
  ⟨hash_returnNode .., (congrArg Array.size (chains_returnNode ..)).trans Array.size_modify,
    poolSize_returnNode ..⟩

theorem alike_clear (d : PooledDirectory) : d.Alike d.clear := by
  have hemptied : d.Alike { d with chains := d.chains.map fun _ => [] } :=
    ⟨rfl, Array.size_map, rfl⟩
  obtain ⟨hhash, hchains, hpool⟩ := List.foldlRecOn d.nodes returnNode hemptied
    fun d' h node _ => h.trans (alike_returnNode d' node)
  exact ⟨hhash, hchains, hpool⟩

/-! ## What a command can do to a pooled directory -/

/-- The ways in which a basic command can change a directory, and what it announces. -/
inductive Change (d : PooledDirectory) :
    DirectoryCommand → PooledDirectory → List Exhaustion → Prop where
  | same {c : DirectoryCommand} : Change d c d []
  | placed {lock : LockId} {d' : PooledDirectory} {notice : Option Exhaustion} :
      lock ∉ ledger d → d.place lock = .placed d' notice →
      Change d (.insert lock) d' notice.toList
  | deepened {c : DirectoryCommand} {lock : LockId} {n k : Nat} :
      (ledger d).lookup lock = some n → 1 ≤ k → Change d c (d.setDepth lock k) []
  | detached {c : DirectoryCommand} {lock : LockId} {n : Nat} {node : Node} :
      (ledger d).lookup lock = some n → d.node? lock = some node → Change d c (d.detach node) []
  | cleared {c : DirectoryCommand} : Change d c d.clear []

theorem run_insert_absent (hd : d.Sound) (hm : lock ∉ ledger d) :
    ∃ d' notice, d.place lock = .placed d' notice ∧
      DirectoryCommand.run d (.insert lock) = (.inserted, d', notice.toList) := by
  have hc := contains_eq (d := d) hd lock
  rw [Finmap.lookup_eq_none.mpr hm] at hc
  obtain ⟨d', notice, hp, -⟩ := becomes_place hd hm
  refine ⟨d', notice, hp, ?_⟩
  have hp : Directory.place d lock = .placed d' notice := hp
  simp [DirectoryCommand.run, Directory.insert, hc, hp]

theorem increment_held (hd : d.Sound) (hl : (ledger d).lookup lock = some k) :
    d.increment lock = some (k + 1, d.setDepth lock (k + 1)) := by
  obtain ⟨node, hnode, hholds⟩ := node?_held hd hl
  rw [increment, find?, hnode, Option.map_some, Option.map_some, hholds]

theorem increment_change {c : DirectoryCommand} {n : Nat} (hd : d.Sound)
    (h : d.increment lock = some (n, d')) : Change d c d' [] := by
  cases hl : (ledger d).lookup lock with
  | none =>
    have habsent := increment_of_absent (d := d) hd (Finmap.lookup_eq_none.mp hl)
    cases h.symm.trans habsent
  | some k =>
    rw [increment_held hd hl] at h
    obtain ⟨-, rfl⟩ := Prod.mk.inj (Option.some.inj h)
    exact .deepened hl (Nat.le_add_left 1 k)

theorem decrement_change {c : DirectoryCommand} {n : Nat} (hd : d.Sound)
    (h : d.decrement lock = some (n, d')) : Change d c d' [] := by
  cases hl : (ledger d).lookup lock with
  | none =>
    have habsent := decrement_of_absent (d := d) hd (Finmap.lookup_eq_none.mp hl)
    cases h.symm.trans habsent
  | some k =>
    obtain ⟨node, hnode, hholds⟩ := node?_held hd hl
    rw [decrement, hnode, Option.map_some, hholds] at h
    have he := Option.some.inj h
    simp only at he
    split at he
    · obtain ⟨-, rfl⟩ := Prod.mk.inj he
      exact .deepened hl (by omega)
    · obtain ⟨-, rfl⟩ := Prod.mk.inj he
      exact .detached hl hnode

theorem remove_change {c : DirectoryCommand} {held : Holding} (hd : d.Sound)
    (h : d.remove lock = some (held, d')) : Change d c d' [] := by
  cases hl : (ledger d).lookup lock with
  | none =>
    have habsent := remove_of_absent (d := d) hd (Finmap.lookup_eq_none.mp hl)
    cases h.symm.trans habsent
  | some k =>
    obtain ⟨node, hnode, -⟩ := node?_held hd hl
    rw [remove, hnode, Option.map_some] at h
    obtain ⟨-, rfl⟩ := Prod.mk.inj (Option.some.inj h)
    exact .detached hl hnode

/-- Every basic command changes a directory in one of these ways. -/
theorem run_change (hd : d.Sound) {c : DirectoryCommand} (hc : c.isBasic = true) :
    Change d c (c.run d).2.1 (c.run d).2.2 := by
  cases c with
  | insert lock =>
    by_cases hm : lock ∈ ledger d
    · rw [run_insert_twice hd hm]
      exact .same
    · obtain ⟨d', notice, hp, hrun⟩ := run_insert_absent hd hm
      rw [hrun]
      exact .placed hm hp
  | increment lock =>
    rw [DirectoryCommand.run]
    cases h : Directory.increment d lock with
    | none => exact .same
    | some r => exact increment_change hd h
  | decrement lock =>
    rw [DirectoryCommand.run]
    cases h : Directory.decrement d lock with
    | none => exact .same
    | some r => exact decrement_change hd h
  | remove lock =>
    rw [DirectoryCommand.run]
    cases h : Directory.remove d lock with
    | none => exact .same
    | some r => exact remove_change hd h
  | clear => exact .cleared
  | lookup | contains | records | size => exact .same
  | _ => cases hc

theorem Change.alike {c : DirectoryCommand} {notices : List Exhaustion}
    (h : Change d c d' notices) : d.Alike d' := by
  cases h with
  | same => exact .refl d
  | placed _ hp => exact alike_place hp
  | deepened => exact alike_editChain ..
  | detached => exact alike_detach ..
  | cleared => exact alike_clear d

/-! ## Runs of commands -/

theorem listing_perm (d : PooledDirectory) : (Inspectable.listing d).Perm (Directory.holdings d) :=
  List.mergeSort_perm ..

theorem answers_alike (commands : List DirectoryCommand) (hc : ∀ c ∈ commands, c.isBasic = true) :
    ∀ d : PooledDirectory, d.Sound → d.Alike (answers d commands).2 := by
  induction commands with
  | nil => exact fun d _ => .refl d
  | cons c cs ih =>
    intro d hd
    have hbasic := hc c List.mem_cons_self
    have hsound := (run_effect hd (listing_perm d) hbasic).sound
    have hrest := ih (fun c hm => hc c (List.mem_cons_of_mem _ hm)) _ hsound
    exact (run_change hd hbasic).alike.trans hrest

/-- The nodes of a directory hang by the hash of their locks, in as many chains as buckets were
asked for, rounded up to a power of two. -/
structure Bucketed (d : PooledDirectory) (hash : LockId → UInt64) (buckets : Nat) : Prop where
  chains : IsLeast {p | p.isPowerOfTwo ∧ buckets ≤ p} d.chains.size
  index_lt : ∀ lock, (hash lock).toNat &&& (d.chains.size - 1) < d.chains.size
  placed : ∀ i (hi : i < d.chains.size), ∀ node ∈ d.chains[i],
    (hash node.holding.lock).toNat &&& (d.chains.size - 1) = i

/-- A directory in order keeps to the hash and the buckets it was made with. -/
theorem bucketed_of_alike {hash : LockId → UInt64} {poolSize buckets : Nat} (hd : d.Sound)
    (h : (create hash poolSize buckets).Alike d) : d.Bucketed hash buckets := by
  have hindex : ∀ lock, d.bucketIndex lock = (hash lock).toNat &&& (d.chains.size - 1) :=
    fun lock => by rw [bucketIndex, h.hash]; rfl
  refine ⟨?_, fun lock => ?_, fun i hi node hm => ?_⟩
  · rw [h.chains]; exact isLeast_chains_create ..
  · rw [← hindex]; exact hd.bucket_lt lock
  · rw [← hindex]; exact hd.placed i hi node hm

/-- **A pooled directory is a finite map**, whatever its hash, its pool and its number of buckets.
After any basic commands every record hangs in the chain that the hash of its lock picks
(`Bucketed`), no lock is recorded twice, and no depth is 0 (`Sound`); the size is the length of all
chains together; every answer so far was that of a finite map without bound, which now has exactly
the recorded holdings. A lock recorded already is refused with nothing changed, and a command about
one lock leaves the records of all others. -/
theorem answers_as_finite_map (hash : LockId → UInt64) (poolSize buckets : Nat)
    (commands : List DirectoryCommand) (hc : ∀ c ∈ commands, c.isBasic = true) :
    let start := PooledDirectory.create hash poolSize buckets
    let d := (answers start commands).2
    d.Bucketed hash buckets ∧ d.Sound ∧ d.size = d.chains.toList.flatten.length ∧
      Ledger.Effects none ∅ commands (answers start commands).1 (ledger d) ∧
      (ledger d).entries = ↑(d.holdings.map Holding.entry) ∧
      (∀ lock ∈ ledger d, DirectoryCommand.run d (.insert lock) = (.recordedTwice lock, d, [])) ∧
      ∀ (c : DirectoryCommand) (lock other : LockId), c.isBasic = true → c.lock? = some lock →
        other ≠ lock → (c.run d).2.1.find? other = d.find? other := by
  intro start d
  have hstart := (sound_create hash poolSize buckets).1
  obtain ⟨hd, he⟩ := answers_effects listing_perm commands hc start hstart
  rw [ledger_create] at he
  refine ⟨bucketed_of_alike hd (answers_alike commands hc start hstart), hd, Sound.size_eq hd, he,
    entries_ledger hd, fun lock hm => run_insert_twice hd hm, fun c lock other hb hl hne => ?_⟩
  have h := run_effect hd (listing_perm d) hb
  have hf := find?_eq_map h.sound other
  rw [h.effect.lookup_ne hl hne, ← find?_eq_map hd] at hf
  exact hf

/-- Three of five locks collide in the second of four chains, over a pool of one node; the first and
the middle one of them are taken out. -/
theorem answers_as_finite_map_collisions :
    let hash : LockId → UInt64 := fun lock => lock.raw
    let commands : List DirectoryCommand :=
      [.insert ⟨1⟩, .insert ⟨2⟩, .insert ⟨5⟩, .insert ⟨9⟩, .insert ⟨7⟩, .increment ⟨5⟩,
        .insert ⟨5⟩, .decrement ⟨1⟩, .remove ⟨5⟩]
    let start := PooledDirectory.create hash 1 3
    let d := (answers start commands).2
    (∀ c ∈ commands, c.isBasic = true) ∧ d.Bucketed hash 3 ∧
      d.chains.toList.map (·.map fun node => node.holding.lock) = [[], [⟨9⟩], [⟨2⟩], [⟨7⟩]] ∧
      Ledger.Effects none ∅ commands (answers start commands).1 (ledger d) := by
  intro hash commands start d
  have hbasic : ∀ c ∈ commands, c.isBasic = true := by decide
  obtain ⟨hbucketed, -, -, heffects, -⟩ := answers_as_finite_map hash 1 3 commands hbasic
  exact ⟨hbasic, hbucketed, by decide +kernel, heffects⟩

end PooledDirectory

end LockElision
