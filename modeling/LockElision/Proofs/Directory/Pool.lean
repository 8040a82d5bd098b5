import LockElision.Proofs.Directory.Chains

/-!
# The nodes of a pooled directory

Where the nodes are is kept twice: by the chains and the free nodes themselves, and by counters
beside them. `Stocked` says that the two agree, and every operation keeps it so. Between a chain and
the free nodes a node is in the hand of the operation, so `Stocked` speaks of a hand as well.

From it follow what the counters tell, that none of them is ever taken below 0, when a node is made,
and how many made nodes there can be: one is made only when the whole pool is in use, so they are
bounded by the most locks ever recorded at a time.
-/

namespace LockElision

namespace Directory

variable {D : Type} [Inspectable D]

/-- What is announced while a list of commands is carried out, oldest first. -/
def announced (d : D) : List DirectoryCommand → List Exhaustion
  | [] => []
  | c :: cs => (c.run d).2.2 ++ announced (c.run d).2.1 cs

/-- The most locks recorded at any time while a list of commands is carried out. -/
def peak (d : D) : List DirectoryCommand → Nat
  | [] => size d
  | c :: cs => max (size d) (peak (c.run d).2.1 cs)

end Directory

namespace PooledDirectory

open Directory LawfulDirectory

variable {d d' : PooledDirectory} {lock : LockId} {node : Node} {hand hand' : List NodeOrigin}
  {k : Nat}

/-- Where the nodes in the chains come from. -/
def origins (d : PooledDirectory) : List NodeOrigin := d.nodes.map Node.origin

structure Stocked (d : PooledDirectory) (hand : List NodeOrigin) : Prop where
  /-- The free nodes are vacant nodes of the pool, and are counted. -/
  free_eq : d.free = List.replicate d.freeCount ⟨Holding.vacant, .pool⟩
  /-- A node of the pool is in a chain, in hand or free. -/
  pool : (hand ++ d.origins).count .pool + d.freeCount = d.poolSize
  /-- A node that was made and not thrown away is in a chain or in hand. -/
  dynamic : (hand ++ d.origins).count .dynamic = d.dynamicInUse
  balance : d.dynamicAllocations = d.dynamicReleases + d.dynamicInUse

/-! ## Nodes on the move -/

/-- Nodes may go from hand to chain and back, and take other holdings. -/
theorem Stocked.rearrange {chains : Array (List Node)} (hs : d.Stocked hand) (size : Nat)
    (hp : (hand' ++ chains.toList.flatten.map Node.origin).Perm (hand ++ d.origins)) :
    Stocked { d with chains := chains, size := size } hand' := by
  refine ⟨hs.free_eq, ?_, ?_, hs.balance⟩
  · rw [← hs.pool, ← hp.count_eq]; rfl
  · show _ = d.dynamicInUse
    rw [← hs.dynamic, ← hp.count_eq]; rfl

/-- A pool that is counted either has run dry or has a vacant node in front. -/
theorem Stocked.free_cases (hs : d.Stocked hand) :
    (d.free = [] ∧ d.freeCount = 0) ∨
      ∃ n, d.freeCount = n + 1 ∧
        d.free = ⟨Holding.vacant, .pool⟩ :: List.replicate n ⟨Holding.vacant, .pool⟩ := by
  have hfree := hs.free_eq
  cases hn : d.freeCount with
  | zero => rw [hn] at hfree; exact .inl ⟨hfree, rfl⟩
  | succ n => rw [hn, List.replicate_succ] at hfree; exact .inr ⟨n, rfl, hfree⟩

theorem Stocked.free_length (hs : d.Stocked hand) : d.free.length = d.freeCount := by
  rw [hs.free_eq, List.length_replicate]

theorem drawNode_stocked (hs : d.Stocked hand) :
    d.drawNode.2.1.Stocked (d.drawNode.1.origin :: hand) := by
  have hpool := hs.pool
  have hdynamic := hs.dynamic
  have hbalance := hs.balance
  rcases hs.free_cases with ⟨hf, -⟩ | ⟨n, hn, hf⟩
  · rw [drawNode_of_dry hf]
    refine ⟨hs.free_eq, ?_, ?_, ?_⟩
    · rw [List.cons_append, List.count_cons_of_ne (by simp)]
      exact hpool
    · rw [List.cons_append, List.count_cons_self]
      exact congrArg (· + 1) hdynamic
    · show d.dynamicAllocations + 1 = d.dynamicReleases + (d.dynamicInUse + 1)
      omega
  · rw [drawNode_of_free hf]
    refine ⟨by rw [hn]; rfl, ?_, ?_, hbalance⟩
    · rw [List.cons_append, List.count_cons_self]
      show (hand ++ d.origins).count .pool + 1 + (d.freeCount - 1) = d.poolSize
      omega
    · rw [List.cons_append, List.count_cons_of_ne (by simp)]
      exact hdynamic

theorem returnNode_stocked (hs : d.Stocked (node.origin :: hand)) :
    (d.returnNode node).Stocked hand := by
  have hpool := hs.pool
  have hdynamic := hs.dynamic
  have hbalance := hs.balance
  unfold returnNode
  cases ho : node.origin with
  | pool =>
    rw [ho] at hpool hdynamic
    refine ⟨?_, ?_, ?_, hbalance⟩
    · show _ :: d.free = List.replicate (d.freeCount + 1) _
      rw [hs.free_eq, List.replicate_succ, ← ho]
    · show (hand ++ d.origins).count .pool + (d.freeCount + 1) = d.poolSize
      rw [List.cons_append, List.count_cons_self] at hpool
      omega
    · show (hand ++ d.origins).count .dynamic = d.dynamicInUse
      rw [List.cons_append, List.count_cons_of_ne (by decide)] at hdynamic
      exact hdynamic
  | dynamic =>
    rw [ho] at hpool hdynamic
    rw [List.cons_append, List.count_cons_of_ne (by decide)] at hpool
    rw [List.cons_append, List.count_cons_self] at hdynamic
    refine ⟨hs.free_eq, hpool, ?_, ?_⟩
    · show (hand ++ d.origins).count .dynamic = d.dynamicInUse - 1
      omega
    · show d.dynamicAllocations = d.dynamicReleases + 1 + (d.dynamicInUse - 1)
      omega

/-! ## Each change keeps the nodes accounted for -/

theorem origins_setDepth (hd : d.Sound) {n : Nat} (h : (ledger d).lookup lock = some n) (k : Nat) :
    (d.setDepth lock k).origins = d.origins := by
  obtain ⟨pre, node, post, -, -, hn, hset, -⟩ := held_split hd h
  unfold origins
  rw [hset, hn]
  simp

theorem setDepth_stocked (hd : d.Sound) (hs : d.Stocked []) {n : Nat}
    (h : (ledger d).lookup lock = some n) (k : Nat) : (d.setDepth lock k).Stocked [] := by
  refine hs.rearrange d.size ?_
  show (d.setDepth lock k).origins.Perm d.origins
  rw [origins_setDepth hd h]

theorem detach_stocked (hd : d.Sound) (hs : d.Stocked []) {n : Nat}
    (h : (ledger d).lookup lock = some n) (hnode : d.node? lock = some node) :
    (d.detach node).Stocked [] := by
  obtain ⟨pre, node', post, hnode', hholds, hn, -, herase⟩ := held_split hd h
  obtain rfl : node = node' := Option.some.inj (hnode.symm.trans hnode')
  obtain rfl : node.holding.lock = lock := by rw [hholds]
  refine returnNode_stocked (hs.rearrange (d.size - 1) ?_)
  have hnodes : (d.editChain node.holding.lock fun chain =>
      chain.eraseP (·.holding.lock == node.holding.lock)).nodes = pre ++ post := herase
  show (node.origin :: List.map Node.origin (nodes _)).Perm (d.nodes.map Node.origin)
  rw [hnodes, hn, ← List.map_cons]
  exact (List.perm_middle.symm).map Node.origin

theorem place_of_dry (hf : d.free = []) : d.place lock = .placed
    { d with
      chains := (d.editChain lock (⟨Holding.first lock, .dynamic⟩ :: ·)).chains
      size := d.size + 1
      dynamicInUse := d.dynamicInUse + 1
      dynamicAllocations := d.dynamicAllocations + 1 } (some ⟨d.poolSize, d.size⟩) := by
  rw [place_eq_drawn, drawNode_of_dry hf]
  rfl

theorem place_of_free {rest : List Node} (hf : d.free = node :: rest) : d.place lock = .placed
    { d with
      chains := (d.editChain lock (⟨Holding.first lock, node.origin⟩ :: ·)).chains
      free := rest
      freeCount := d.freeCount - 1
      size := d.size + 1 } none := by
  rw [place_eq_drawn, drawNode_of_free hf]
  rfl

theorem place_stocked (hd : d.Sound) (hs : d.Stocked []) {notice : Option Exhaustion}
    (hp : d.place lock = .placed d' notice) : d'.Stocked [] := by
  obtain ⟨-, hchains⟩ := place_front hp
  have hnodes : d'.nodes.Perm (⟨Holding.first lock, d.drawNode.1.origin⟩ :: d.nodes) := by
    rw [nodes_congr hchains]
    exact editChain_cons_perm hd lock _
  have horigins : d.drawNode.2.1.origins = d.origins := by
    unfold origins; rw [nodes_congr (drawNode_keeps d).2.1]
  rw [place_eq_drawn] at hp
  obtain ⟨rfl, -⟩ := Placement.placed.inj hp
  refine (drawNode_stocked hs).rearrange (d.drawNode.2.1.size + 1) ?_
  rw [horigins]
  exact hnodes.map Node.origin

theorem foldl_returnNode_stocked (hand : List NodeOrigin) (nodes : List Node) :
    ∀ d : PooledDirectory, d.Stocked (nodes.map Node.origin ++ hand) →
      (nodes.foldl returnNode d).Stocked hand := by
  induction nodes with
  | nil => exact fun d hs => hs
  | cons node nodes ih => exact fun d hs => ih _ (returnNode_stocked hs)

/-- The chains are emptied first; then every node is in hand. -/
theorem emptied_stocked (hs : d.Stocked []) :
    Stocked { d with chains := d.chains.map fun _ => [] } d.origins := by
  refine hs.rearrange d.size ?_
  have hempty : (d.chains.map fun _ => ([] : List Node)).toList.flatten = [] := by simp
  rw [hempty]
  simp

theorem clear_stocked (hs : d.Stocked []) : d.clear.Stocked [] := by
  have h := foldl_returnNode_stocked [] d.nodes _
    (by rw [List.append_nil]; exact emptied_stocked hs)
  exact h.rearrange 0 (.refl _)

/-! ## What the counters tell -/

@[simp] theorem dynamicAllocations_returnNode (d : PooledDirectory) (node : Node) :
    (d.returnNode node).dynamicAllocations = d.dynamicAllocations := by
  unfold returnNode; split <;> rfl

theorem dynamicInUse_returnNode_le (d : PooledDirectory) (node : Node) :
    (d.returnNode node).dynamicInUse ≤ d.dynamicInUse := by
  unfold returnNode
  split
  · exact Nat.le_refl _
  · exact Nat.sub_le ..

theorem clear_counters (nodes : List Node) :
    ∀ d : PooledDirectory, (nodes.foldl returnNode d).dynamicAllocations = d.dynamicAllocations ∧
      (nodes.foldl returnNode d).dynamicInUse ≤ d.dynamicInUse := by
  induction nodes with
  | nil => exact fun d => ⟨rfl, Nat.le_refl _⟩
  | cons node nodes ih =>
    intro d
    obtain ⟨hmade, huse⟩ := ih (d.returnNode node)
    exact ⟨hmade.trans (dynamicAllocations_returnNode ..),
      huse.trans (dynamicInUse_returnNode_le ..)⟩

theorem length_eq_count (origins : List NodeOrigin) :
    origins.length = origins.count .pool + origins.count .dynamic := by
  induction origins with
  | nil => rfl
  | cons origin origins ih =>
    cases origin <;> simp [ih] <;> omega

theorem size_eq_count (hd : d.Sound) :
    d.size = d.origins.count .pool + d.origins.count .dynamic := by
  rw [hd.size_eq, ← length_eq_count, origins, List.length_map]

/-- Every subtraction a directory may come to takes away no more than there is. -/
structure NoUnderflow (d : PooledDirectory) : Prop where
  usage : d.dynamicInUse ≤ d.size
  drawNode : d.free ≠ [] → 1 ≤ d.freeCount
  /-- A lock that leaves takes its node out of the size, and of the dynamic ones if it is one. -/
  detach : ∀ lock node, d.node? lock = some node →
    1 ≤ d.size ∧ (node.origin = .dynamic → 1 ≤ d.dynamicInUse)
  /-- Clearing returns the nodes one by one. -/
  clear : ∀ before node after, d.nodes = before ++ node :: after → node.origin = .dynamic →
    1 ≤ (before.foldl returnNode { d with chains := d.chains.map fun _ => [] }).dynamicInUse

theorem node?_mem (hd : d.Sound) (h : d.node? lock = some node) : node ∈ d.nodes :=
  List.mem_of_find?_eq_some ((nodes_find? hd lock).trans h)

theorem Stocked.dynamic_pos (hs : d.Stocked hand) (h : .dynamic ∈ hand ++ d.origins) :
    1 ≤ d.dynamicInUse := by
  rw [← hs.dynamic]
  exact List.count_pos_iff.mpr h

theorem noUnderflow (hd : d.Sound) (hs : d.Stocked []) : d.NoUnderflow := by
  have hdynamic : d.origins.count .dynamic = d.dynamicInUse := hs.dynamic
  have hsize := size_eq_count hd
  refine ⟨by omega, fun hf => ?_, fun lock node hnode => ?_, fun before node after hn ho => ?_⟩
  · rcases hs.free_cases with ⟨hnil, -⟩ | ⟨n, hn, -⟩
    · exact absurd hnil hf
    · omega
  · have hm := node?_mem hd hnode
    refine ⟨?_, fun ho => hs.dynamic_pos ?_⟩
    · rw [hd.size_eq]
      exact List.length_pos_of_mem hm
    · exact List.mem_map.mpr ⟨node, hm, ho⟩
  · have hempty := emptied_stocked hs
    unfold origins at hempty
    rw [hn, List.map_append, List.map_cons, ho] at hempty
    exact (foldl_returnNode_stocked _ before _ hempty).dynamic_pos (by simp)

/-- What a change to a directory does to its nodes, with what it announces. -/
structure Tended (d d' : PooledDirectory) (notices : List Exhaustion) : Prop where
  sound : d'.Sound
  stocked : d'.Stocked []
  /-- Every node made is announced. -/
  made : d'.dynamicAllocations = d.dynamicAllocations + notices.length
  /-- More nodes are in use that were made only if they are all beyond the pool. -/
  growth : d'.dynamicInUse ≤ max d.dynamicInUse (d'.size - d.poolSize)

/-- With the whole pool in the chains a node has to be made. -/
theorem Stocked.free_of_full (hs : d.Stocked []) (h : d.origins.count .pool = d.poolSize) :
    d.free = [] := by
  have hpool : d.origins.count .pool + d.freeCount = d.poolSize := hs.pool
  rcases hs.free_cases with ⟨hf, -⟩ | ⟨n, hn, -⟩
  · exact hf
  · omega

theorem Stocked.free_of_spare (hs : d.Stocked []) (h : d.origins.count .pool ≠ d.poolSize) :
    ∃ rest, d.free = ⟨Holding.vacant, .pool⟩ :: rest := by
  have hpool : d.origins.count .pool + d.freeCount = d.poolSize := hs.pool
  rcases hs.free_cases with ⟨-, hn⟩ | ⟨n, -, hf⟩
  · omega
  · exact ⟨_, hf⟩

theorem node?_front (hi : d.bucketIndex lock < d.chains.size) (hl : node.holding.lock = lock)
    (hhash : d'.hash = d.hash) (hchains : d'.chains = (d.editChain lock (node :: ·)).chains) :
    d'.node? lock = some node := by
  have hindex : d'.bucketIndex lock = d.bucketIndex lock := by
    refine bucketIndex_congr hhash ?_ lock
    rw [hchains, chains_editChain, Array.size_modify]
  unfold node? chain
  rw [hindex, hchains, chains_editChain]
  simp [Array.getElem_modify_self, hi, hl]

theorem origin?_place (hd : d.Sound) {notice : Option Exhaustion}
    (hp : d.place lock = .placed d' notice) : d'.origin? lock = some d.drawNode.1.origin := by
  obtain ⟨hhash, hchains⟩ := place_front hp
  rw [origin?, node?_front (hd.bucket_lt lock) rfl hhash hchains]
  rfl

theorem place_tended (hd : d.Sound) (hs : d.Stocked []) (hm : lock ∉ ledger d)
    {notice : Option Exhaustion} (hp : d.place lock = .placed d' notice) :
    Tended d d' notice.toList := by
  have hsound : d'.Sound := (placed_becomes (d := d) hd hm hp).sound
  have hstocked := place_stocked hd hs hp
  have hsize := size_eq_count hd
  have hdynamic : d.origins.count .dynamic = d.dynamicInUse := hs.dynamic
  by_cases h : d.origins.count .pool = d.poolSize
  · rw [place_of_dry (hs.free_of_full h)] at hp
    obtain ⟨rfl, rfl⟩ := Placement.placed.inj hp
    refine ⟨hsound, hstocked, rfl, ?_⟩
    show d.dynamicInUse + 1 ≤ max d.dynamicInUse (d.size + 1 - d.poolSize)
    omega
  · obtain ⟨rest, hf⟩ := hs.free_of_spare h
    rw [place_of_free hf] at hp
    obtain ⟨rfl, rfl⟩ := Placement.placed.inj hp
    exact ⟨hsound, hstocked, rfl, Nat.le_max_left ..⟩

theorem Change.tended (hd : d.Sound) (hs : d.Stocked []) {c : DirectoryCommand}
    {notices : List Exhaustion} (h : Change d c d' notices) : Tended d d' notices := by
  cases h with
  | same => exact ⟨hd, hs, rfl, Nat.le_max_left ..⟩
  | placed hm hp => exact place_tended hd hs hm hp
  | @deepened _ lock _ k hl hk =>
    exact ⟨(becomes_setDepth hd hl hk).sound, setDepth_stocked hd hs hl k, rfl,
      Nat.le_max_left ..⟩
  | detached hl hnode =>
    refine ⟨(becomes_detach hd hl hnode).sound, detach_stocked hd hs hl hnode, ?_, ?_⟩
    · exact dynamicAllocations_returnNode ..
    · exact (dynamicInUse_returnNode_le ..).trans (Nat.le_max_left ..)
  | cleared =>
    obtain ⟨hmade, huse⟩ := clear_counters d.nodes { d with chains := d.chains.map fun _ => [] }
    exact ⟨(sound_clear hd).1, clear_stocked hs, hmade, huse.trans (Nat.le_max_left ..)⟩

theorem stocked_create (hash : LockId → UInt64) (poolSize buckets : Nat) :
    (create hash poolSize buckets).Stocked [] := by
  have h : (create hash poolSize buckets).origins = [] := by
    have hempty := (sound_create hash poolSize buckets).2
    unfold holdings at hempty
    unfold origins
    rw [List.map_eq_nil_iff.mp hempty]
    rfl
  refine ⟨rfl, ?_, ?_, rfl⟩
  · rw [h]; exact Nat.zero_add _
  · rw [h]; rfl

/-! ## Runs of commands -/

/-- What a run of commands keeps, and what it counts. -/
structure TendedThrough (d : PooledDirectory) (commands : List DirectoryCommand)
    (d' : PooledDirectory) : Prop where
  sound : d'.Sound
  stocked : d'.Stocked []
  made : d'.dynamicAllocations = d.dynamicAllocations + (announced d commands).length
  growth : d'.dynamicInUse ≤ max d.dynamicInUse (peak d commands - d.poolSize)

theorem answers_tended (commands : List DirectoryCommand) (hc : ∀ c ∈ commands, c.isBasic = true) :
    ∀ d : PooledDirectory, d.Sound → d.Stocked [] →
      TendedThrough d commands (answers d commands).2 := by
  induction commands with
  | nil => exact fun d hd hs => ⟨hd, hs, rfl, Nat.le_max_left ..⟩
  | cons c cs ih =>
    intro d hd hs
    have hchange := run_change hd (hc c List.mem_cons_self)
    have hstep := hchange.tended hd hs
    have hrest := ih (fun c hm => hc c (List.mem_cons_of_mem _ hm)) _ hstep.sound hstep.stocked
    refine ⟨hrest.sound, hrest.stocked, ?_, ?_⟩
    · have hmade := hrest.made
      rw [hstep.made, Nat.add_assoc, ← List.length_append] at hmade
      exact hmade
    · have hgrowth := hrest.growth
      have hstep' := hstep.growth
      rw [hchange.alike.pool] at hgrowth
      have hpeak : size (c.run d).2.1 ≤ peak (c.run d).2.1 cs := by
        cases cs with
        | nil => exact Nat.le_refl _
        | cons => exact Nat.le_max_left ..
      show (answers (c.run d).2.1 cs).2.dynamicInUse ≤
        max d.dynamicInUse (max (size d) (peak (c.run d).2.1 cs) - d.poolSize)
      have hsize : (c.run d).2.1.size ≤ peak (c.run d).2.1 cs := hpeak
      omega

/-- How the nodes of a directory `d` stand that started as `start`, with a pool of `poolSize` nodes,
and carried out `commands`. -/
structure Accounts (poolSize : Nat) (start : PooledDirectory) (commands : List DirectoryCommand)
    (d : PooledDirectory) : Prop where
  total : d.usage.poolSize = poolSize
  freeNodes : d.free.length = d.usage.freeNodes
  freeOrigin : ∀ node ∈ d.free, node.origin = .pool
  pool : d.usage.pooledInUse + d.usage.freeNodes = poolSize
  live : d.usage.live = d.usage.pooledInUse + d.usage.dynamicInUse
  pooledInUse : d.usage.pooledInUse = d.origins.count .pool
  dynamicInUse : d.usage.dynamicInUse = d.origins.count .dynamic
  releases_le : d.usage.dynamicReleases ≤ d.usage.dynamicAllocations
  balance : d.usage.dynamicAllocations - d.usage.dynamicReleases = d.usage.dynamicInUse
  noUnderflow : d.NoUnderflow
  /-- A lock that comes now gets a node that is made just when the whole pool is in use. -/
  drawn : ∀ lock ∉ ledger d, (DirectoryCommand.run d (.insert lock)).2.1.origin? lock =
    some (if d.usage.pooledInUse = poolSize then .dynamic else .pool)
  /-- One announcement for every node that was made so far. -/
  announced : (announced start commands).length = d.usage.dynamicAllocations
  /-- What is announced next, if anything: by a lock that comes when the whole pool is in use. -/
  news : ∀ c : DirectoryCommand, c.isBasic = true → (c.run d).2.2 = [] ∨
    (∃ lock ∉ ledger d, c = .insert lock) ∧ d.usage.pooledInUse = poolSize ∧
      (c.run d).2.2 = [⟨poolSize, d.usage.live⟩] ∧ poolSize ≤ d.usage.live
  /-- Made nodes were needed at some time, all at once. -/
  highWater : d.usage.dynamicInUse ≤ peak start commands - poolSize

theorem insert_origin (hd : d.Sound) (hs : d.Stocked []) (hm : lock ∉ ledger d) :
    (DirectoryCommand.run d (.insert lock)).2.1.origin? lock =
      some (if d.origins.count .pool = d.poolSize then .dynamic else .pool) := by
  obtain ⟨d', notice, hp, hrun⟩ := run_insert_absent hd hm
  rw [hrun, origin?_place hd hp]
  by_cases h : d.origins.count .pool = d.poolSize
  · rw [if_pos h, drawNode_of_dry (hs.free_of_full h)]
  · obtain ⟨rest, hf⟩ := hs.free_of_spare h
    rw [if_neg h, drawNode_of_free hf]

theorem Change.news (hs : d.Stocked []) {c : DirectoryCommand}
    {notices : List Exhaustion} (h : Change d c d' notices) : notices = [] ∨
      (∃ lock ∉ ledger d, c = .insert lock) ∧ d.origins.count .pool = d.poolSize ∧
        notices = [⟨d.poolSize, d.size⟩] := by
  cases h with
  | placed hm hp =>
    by_cases h : d.origins.count .pool = d.poolSize
    · rw [place_of_dry (hs.free_of_full h)] at hp
      obtain ⟨-, rfl⟩ := Placement.placed.inj hp
      exact .inr ⟨⟨_, hm, rfl⟩, h, rfl⟩
    · obtain ⟨rest, hf⟩ := hs.free_of_spare h
      rw [place_of_free hf] at hp
      obtain ⟨-, rfl⟩ := Placement.placed.inj hp
      exact .inl rfl
  | _ => exact .inl rfl

/-- **The nodes of a pooled directory are accounted for**, whatever its hash, its pool and its
number of buckets, after any basic commands. -/
theorem nodes_accounted (hash : LockId → UInt64) (poolSize buckets : Nat)
    (commands : List DirectoryCommand) (hc : ∀ c ∈ commands, c.isBasic = true) :
    let start := PooledDirectory.create hash poolSize buckets
    Accounts poolSize start commands (answers start commands).2 := by
  intro start
  have hstart := (sound_create hash poolSize buckets).1
  have h := answers_tended commands hc start hstart (stocked_create ..)
  have hpool : (answers start commands).2.poolSize = poolSize :=
    (answers_alike commands hc start hstart).pool
  generalize (answers start commands).2 = d at h hpool
  obtain ⟨hd, hs, hmade, hgrowth⟩ := h
  have hsize := size_eq_count hd
  have hdynamic : d.origins.count .dynamic = d.dynamicInUse := hs.dynamic
  have hfree : d.origins.count .pool + d.freeCount = poolSize := hs.pool.trans hpool
  have hbalance := hs.balance
  have hused : d.usage.pooledInUse = d.origins.count .pool := by
    show d.size - d.dynamicInUse = _
    omega
  have hstart : start.dynamicInUse = 0 := rfl
  have hstart' : start.dynamicAllocations = 0 := rfl
  refine ⟨hpool, ?_, ?_, ?_, ?_, hused, hdynamic.symm, ?_, ?_, noUnderflow hd hs, ?_, ?_, ?_, ?_⟩
  · exact hs.free_length
  · intro node hm
    rw [hs.free_eq] at hm
    rw [List.eq_of_mem_replicate hm]
  · rw [hused]; exact hfree
  · show d.size = d.usage.pooledInUse + d.dynamicInUse
    omega
  · show d.dynamicReleases ≤ d.dynamicAllocations
    omega
  · show d.dynamicAllocations - d.dynamicReleases = d.dynamicInUse
    omega
  · intro lock hm
    rw [hused, ← hpool]
    exact insert_origin hd hs hm
  · show _ = d.dynamicAllocations
    omega
  · intro c hc
    rw [hused, ← hpool]
    rcases (run_change hd hc).news hs with hnil | ⟨hlock, hfull, hnews⟩
    · exact .inl hnil
    · refine .inr ⟨hlock, hfull, hnews, ?_⟩
      show d.poolSize ≤ d.size
      omega
  · have hstart' : start.poolSize = poolSize := rfl
    show d.dynamicInUse ≤ peak start commands - poolSize
    omega

/-- Made nodes can outlive those of the pool: of four locks over a pool of two nodes the first two
are taken out again, and what is left has the nodes that were made, with the pool free. -/
theorem nodes_accounted_after_overflow :
    let commands : List DirectoryCommand :=
      [.insert ⟨1⟩, .insert ⟨2⟩, .insert ⟨3⟩, .insert ⟨4⟩, .increment ⟨3⟩, .remove ⟨1⟩,
        .decrement ⟨2⟩]
    let start := PooledDirectory.create (fun lock => lock.raw) 2 2
    let d := (answers start commands).2
    (∀ c ∈ commands, c.isBasic = true) ∧ Accounts 2 start commands d ∧
      d.usage = ⟨2, 0, 2, 2, 2, 2, 0⟩ ∧ peak start commands = 4 := by
  intro commands start d
  have hbasic : ∀ c ∈ commands, c.isBasic = true := by decide
  have hcounters : d.usage = ⟨2, 0, 2, 2, 2, 2, 0⟩ ∧ peak start commands = 4 := by decide +kernel
  exact ⟨hbasic, nodes_accounted _ _ _ commands hbasic, hcounters⟩

end PooledDirectory

end LockElision
