import LockElision.Directory.Pooled
import LockElision.Proofs.Directory.Lawful

/-!
# Pooled directories are lawful

Every node hangs in the chain of its lock's bucket, so an operation on a lock concerns one chain.
`chain_split` cuts the list of all nodes around that chain; `held_split` cuts it around the one node
a recorded lock has. What an operation does to the nodes can then be read off, whatever collides
with what, and the free nodes and the counters of dynamic nodes play no part in it.
-/

namespace LockElision

namespace PooledDirectory

variable {d d' : PooledDirectory} {lock : LockId} {node : Node} {k : Nat}

structure Sound (d : PooledDirectory) : Prop where
  /-- The bucket of any lock is one of the chains. -/
  bucket_lt : ∀ lock, d.bucketIndex lock < d.chains.size
  /-- A node hangs in the chain of its lock's bucket. -/
  placed : ∀ i (hi : i < d.chains.size), ∀ node ∈ d.chains[i], d.bucketIndex node.holding.lock = i
  distinct : Distinct d.holdings
  positive : ∀ h ∈ d.holdings, 1 ≤ h.depth
  size_eq : d.size = d.nodes.length

/-! ## What does not concern the chains -/

@[simp] theorem hash_returnNode (d : PooledDirectory) (node : Node) :
    (d.returnNode node).hash = d.hash := by
  unfold returnNode; split <;> rfl

@[simp] theorem chains_returnNode (d : PooledDirectory) (node : Node) :
    (d.returnNode node).chains = d.chains := by
  unfold returnNode; split <;> rfl

@[simp] theorem size_returnNode (d : PooledDirectory) (node : Node) :
    (d.returnNode node).size = d.size := by
  unfold returnNode; split <;> rfl

theorem chains_editChain (d : PooledDirectory) (lock : LockId) (f : List Node → List Node) :
    (d.editChain lock f).chains = d.chains.modify (d.bucketIndex lock) f := rfl

theorem bucketIndex_congr (hhash : d'.hash = d.hash) (hsize : d'.chains.size = d.chains.size)
    (lock : LockId) : d'.bucketIndex lock = d.bucketIndex lock := by
  rw [bucketIndex, bucketIndex, hhash, hsize]

/-! ## Cutting the nodes around a chain -/

theorem chain_eq (hi : d.bucketIndex lock < d.chains.size) :
    d.chain lock = d.chains[d.bucketIndex lock] := by
  simp [chain, hi]

theorem mem_chain (hd : d.Sound) (hm : node ∈ d.chain lock) :
    d.bucketIndex node.holding.lock = d.bucketIndex lock := by
  rw [chain_eq (hd.bucket_lt lock)] at hm
  exact hd.placed _ (hd.bucket_lt lock) node hm

/-- Only the chain of a lock can have the lock. -/
theorem chain_split (hd : d.Sound) (lock : LockId) :
    ∃ before after, d.nodes = before ++ d.chain lock ++ after ∧
      (∀ f, (d.editChain lock f).nodes = before ++ f (d.chain lock) ++ after) ∧
      ∀ node ∈ before ++ after, node.holding.lock ≠ lock := by
  have hi := hd.bucket_lt lock
  have hi' : d.bucketIndex lock < d.chains.toList.length := by simpa using hi
  have hc : d.chains.toList[d.bucketIndex lock] = d.chain lock := by
    rw [chain_eq hi]; simp
  refine ⟨(d.chains.toList.take (d.bucketIndex lock)).flatten,
    (d.chains.toList.drop (d.bucketIndex lock + 1)).flatten, ?_, fun f => ?_, ?_⟩
  · conv_lhs => rw [nodes, ← List.take_append_drop (d.bucketIndex lock) d.chains.toList,
      List.drop_eq_getElem_cons hi', hc]
    simp
  · rw [nodes, chains_editChain, Array.toList_modify, List.modify_eq_take_cons_drop hi', hc]
    simp
  · intro node hm he
    simp only [List.mem_append, List.mem_flatten] at hm
    rcases hm with ⟨chain, hchain, hm⟩ | ⟨chain, hchain, hm⟩
    · obtain ⟨j, hj, rfl⟩ := List.mem_take_iff_getElem.mp hchain
      have := hd.placed j (by simp at hj; omega) node (by simpa using hm)
      rw [he] at this
      omega
    · obtain ⟨j, hj, rfl⟩ := List.mem_drop_iff_getElem.mp hchain
      have := hd.placed (d.bucketIndex lock + 1 + j) (by simp at hj; omega) node (by simpa using hm)
      rw [he] at this
      omega

/-! ## Finding a lock -/

theorem nodes_find? (hd : d.Sound) (lock : LockId) :
    d.nodes.find? (·.holding.lock == lock) = d.node? lock := by
  obtain ⟨before, after, hn, -, hne⟩ := chain_split hd lock
  have hb : before.find? (·.holding.lock == lock) = none :=
    List.find?_eq_none.mpr fun a ha => by simpa using hne a (List.mem_append_left _ ha)
  have ha : after.find? (·.holding.lock == lock) = none :=
    List.find?_eq_none.mpr fun a ha => by simpa using hne a (List.mem_append_right _ ha)
  rw [hn, List.find?_append, List.find?_append, hb, ha, Option.none_or, Option.or_none, node?]

theorem find?_holdings (hd : d.Sound) (lock : LockId) :
    d.find? lock = d.holdings.find? (·.lock == lock) := by
  rw [find?, ← nodes_find? hd, holdings, List.find?_map]
  rfl

/-- The node of a recorded lock, and what becomes of the nodes when its depth is set or it is taken
out of its chain. -/
theorem held_split (hd : d.Sound) (h : (Directory.ledger d).lookup lock = some k) :
    ∃ pre node post, d.node? lock = some node ∧ node.holding = ⟨lock, k⟩ ∧
      d.nodes = pre ++ node :: post ∧
      (∀ depth, (d.setDepth lock depth).nodes =
        pre ++ { node with holding := ⟨lock, depth⟩ } :: post) ∧
      (d.editChain lock fun chain => chain.eraseP (·.holding.lock == lock)).nodes =
        pre ++ post := by
  obtain ⟨before, after, hn, hedit, hne⟩ := chain_split hd lock
  have hf := Ledger.lookup_ofHoldings d.holdings lock
  rw [← find?_holdings hd, find?, Option.map_map] at hf
  obtain ⟨node, hnode, hk⟩ := Option.map_eq_some_iff.mp (hf.symm.trans h)
  obtain ⟨hl, c₁, c₂, hc, h₁⟩ := List.find?_eq_some_iff_append.mp hnode
  have hl : node.holding.lock = lock := by simpa using hl
  have h₁ : ∀ a ∈ c₁, a.holding.lock ≠ lock := fun a ha => by simpa using h₁ a ha
  -- the chain has the lock once, so behind the node there is none either
  have h₂ : ∀ a ∈ c₂, a.holding.lock ≠ lock := by
    have hd := hd.distinct
    rw [holdings, hn, hc, Distinct] at hd
    simp only [List.map_append, List.map_cons, List.append_assoc, List.cons_append] at hd
    have hd := (List.nodup_append.mp (List.nodup_append.mp hd).2.1).2.1
    intro a ha he
    refine (List.nodup_cons.mp hd).1 (List.mem_append_left _ ?_)
    rw [hl, ← he, List.map_map]
    exact List.mem_map_of_mem ha
  refine ⟨before ++ c₁, node, c₂ ++ after, hnode, ?_, by rw [hn, hc]; simp, fun depth => ?_, ?_⟩
  · obtain ⟨⟨lock', depth⟩, origin⟩ := node
    exact congrArg₂ Holding.mk hl hk
  · rw [setDepth, hedit, hc, List.map_append, List.map_cons, if_pos (by simp [hl])]
    have keep {c : List Node} (hc : ∀ a ∈ c, a.holding.lock ≠ lock) :
        (c.map fun node => if node.holding.lock == lock
          then { node with holding := ⟨lock, depth⟩ } else node) = c :=
      (List.map_congr_left fun a ha => if_neg (by simp [hc a ha])).trans (List.map_id' c)
    rw [keep h₁, keep h₂]
    simp
  · rw [hedit, hc, List.eraseP_append_right _ (fun a ha => by simpa using h₁ a ha),
      List.eraseP_cons_of_pos (by simp [hl])]
    simp

/-! ## Editing one chain -/

theorem nodes_congr (h : d'.chains = d.chains) : d'.nodes = d.nodes := by rw [nodes, nodes, h]

/-- A change to one chain keeps the directory sound if the chain keeps to its bucket and the
holdings it leaves are in order. -/
theorem sound_edit (hd : d.Sound) (lock : LockId) (f : List Node → List Node)
    (hhash : d'.hash = d.hash) (hchains : d'.chains = (d.editChain lock f).chains)
    (hf : ∀ node ∈ f (d.chain lock), d.bucketIndex node.holding.lock = d.bucketIndex lock)
    (hdist : Distinct d'.holdings) (hpos : ∀ h ∈ d'.holdings, 1 ≤ h.depth)
    (hsize : d'.size = d'.nodes.length) : d'.Sound := by
  have hlen : d'.chains.size = d.chains.size := by rw [hchains, chains_editChain, Array.size_modify]
  refine ⟨fun lock => ?_, fun i hi node hm => ?_, hdist, hpos, hsize⟩
  · rw [bucketIndex_congr hhash hlen, hlen]; exact hd.bucket_lt lock
  · rw [bucketIndex_congr hhash hlen]
    simp only [hchains, chains_editChain, Array.getElem_modify] at hm
    split at hm
    · next he =>
      subst he
      rw [← chain_eq (hd.bucket_lt lock)] at hm
      exact hf node hm
    · exact hd.placed i (hlen ▸ hi) node hm

theorem mem_setDepth_chain {depth : Nat} (hd : d.Sound)
    (hm : node ∈ (d.chain lock).map fun node => if node.holding.lock == lock
      then { node with holding := ⟨lock, depth⟩ } else node) :
    d.bucketIndex node.holding.lock = d.bucketIndex lock := by
  obtain ⟨a, ha, rfl⟩ := List.mem_map.mp hm
  split
  · rfl
  · exact mem_chain hd ha

open Directory

theorem becomes_setDepth {j : Nat} (hd : d.Sound) (h : (ledger d).lookup lock = some k)
    (hj : 1 ≤ j) : Becomes Sound d (d.setDepth lock j) ((ledger d).insert lock j) := by
  obtain ⟨pre, node, post, -, hnode, hn, hset, -⟩ := held_split hd h
  have hh : d.holdings = pre.map Node.holding ++ ⟨lock, k⟩ :: post.map Node.holding := by
    rw [holdings, hn, ← hnode]; simp
  have hh' : (d.setDepth lock j).holdings =
      pre.map Node.holding ++ ⟨lock, j⟩ :: post.map Node.holding := by
    rw [holdings, hset]; simp
  have hdist := hd.distinct
  rw [hh] at hdist
  refine ⟨sound_edit hd lock _ rfl rfl (fun a ha => mem_setDepth_chain hd ha) ?_ ?_ ?_, rfl, ?_⟩
  · rw [hh']; simpa [Distinct] using hdist
  · rw [hh']
    intro a ha
    rcases List.mem_append.mp ha with ha | ha
    · exact hd.positive a (by rw [hh]; exact List.mem_append_left _ ha)
    · rcases List.mem_cons.mp ha with rfl | ha
      · exact hj
      · exact hd.positive a (by rw [hh]; simp only [List.mem_append, List.mem_cons, ha, or_true])
  · show d.size = (d.setDepth lock j).nodes.length
    rw [hd.size_eq, hset, hn]; simp
  · show Ledger.ofHoldings (d.setDepth lock j).holdings =
      (Ledger.ofHoldings d.holdings).insert lock j
    rw [hh, hh']
    exact Ledger.ofHoldings_set hdist j

theorem becomes_detach (hd : d.Sound) (h : (ledger d).lookup lock = some k)
    (hnode : d.node? lock = some node) :
    Becomes Sound d (d.detach node) ((ledger d).erase lock) := by
  obtain ⟨pre, node', post, hnode', hholds, hn, -, herase⟩ := held_split hd h
  obtain rfl : node = node' := Option.some.inj (hnode.symm.trans hnode')
  have hl : node.holding.lock = lock := by rw [hholds]
  have hn' : (d.detach node).nodes = pre ++ post := by
    rw [← herase, detach, hl]
    exact nodes_congr (chains_returnNode ..)
  have hh' : (d.detach node).holdings = (pre ++ post).map Node.holding := by rw [holdings, hn']
  have hp : d.holdings.Perm (⟨lock, k⟩ :: (d.detach node).holdings) := by
    rw [hh', holdings, hn, ← hholds]
    exact (List.perm_middle.map _)
  refine ⟨sound_edit hd lock (fun chain => chain.eraseP (·.holding.lock == lock)) ?_ ?_
    (fun a ha => mem_chain hd (List.mem_of_mem_eraseP ha))
    (Distinct.cons.mp (hd.distinct.perm hp)).2 ?_ ?_, rfl, ?_⟩
  · rw [detach, hash_returnNode]; rfl
  · rw [detach, chains_returnNode, hl]
  · exact fun a ha => hd.positive a (hp.mem_iff.mpr (List.mem_cons_of_mem _ ha))
  · rw [detach, size_returnNode, ← detach, hn']
    show d.size - 1 = _
    rw [hd.size_eq, hn]; simp
  · exact (Ledger.erase_ofHoldings hp hd.distinct).symm

theorem place_eq (d : PooledDirectory) (lock : LockId) :
    ∃ d' notice origin, d.place lock = .placed d' notice ∧ d'.hash = d.hash ∧
      d'.chains = (d.editChain lock (⟨Holding.first lock, origin⟩ :: ·)).chains ∧
      d'.size = d.size + 1 := by
  cases hf : d.free with
  | nil =>
    refine ⟨_, _, .dynamic, by rw [place, drawNode, hf], ?_⟩
    exact ⟨rfl, rfl, rfl⟩
  | cons node rest =>
    refine ⟨_, _, node.origin, by rw [place, drawNode, hf], ?_⟩
    exact ⟨rfl, rfl, rfl⟩

theorem editChain_cons_perm (hd : d.Sound) (lock : LockId) (node : Node) :
    (d.editChain lock (node :: ·)).nodes.Perm (node :: d.nodes) := by
  obtain ⟨before, after, hn, hedit, -⟩ := chain_split hd lock
  rw [hedit, hn, List.append_assoc, List.append_assoc]
  exact List.perm_middle

theorem becomes_place (hd : d.Sound) (hm : lock ∉ ledger d) :
    ∃ d' notice, d.place lock = .placed d' notice ∧
      Becomes Sound d d' ((ledger d).insert lock 1) := by
  obtain ⟨d', notice, origin, he, hhash, hchains, hsize⟩ := place_eq d lock
  have hp : d'.nodes.Perm (⟨Holding.first lock, origin⟩ :: d.nodes) := by
    rw [nodes_congr hchains]
    exact editChain_cons_perm hd lock _
  have hp' : d'.holdings.Perm (Holding.first lock :: d.holdings) := hp.map Node.holding
  have hdist : Distinct (Holding.first lock :: d.holdings) :=
    Distinct.cons.mpr ⟨fun a ha he => hm (Ledger.mem_ofHoldings.mpr ⟨a, ha, he⟩), hd.distinct⟩
  refine ⟨d', notice, he, sound_edit hd lock _ hhash hchains ?_ (hdist.perm hp'.symm) ?_ ?_, rfl,
    ?_⟩
  · intro a ha
    rcases List.mem_cons.mp ha with rfl | ha
    · rfl
    · exact mem_chain hd ha
  · intro a ha
    rcases List.mem_cons.mp (hp'.mem_iff.mp ha) with rfl | ha
    · exact Nat.le_refl 1
    · exact hd.positive a ha
  · rw [hsize, hd.size_eq, hp.length_eq, List.length_cons]
  · exact (Ledger.ofHoldings_perm hp'.symm hdist).symm.trans (Ledger.ofHoldings_cons ..)

/-! ## Empty directories -/

theorem sound_of_empty (hpos : 0 < d.chains.size)
    (hempty : ∀ i (hi : i < d.chains.size), d.chains[i] = []) (hsize : d.size = 0) :
    d.Sound ∧ d.holdings = [] := by
  have hn : d.nodes = [] := by
    refine List.flatten_eq_nil_iff.mpr fun chain hm => ?_
    obtain ⟨i, hi, rfl⟩ := List.getElem_of_mem hm
    simpa using hempty i (by simpa using hi)
  have hh : d.holdings = [] := by rw [holdings, hn]; rfl
  refine ⟨⟨fun lock => ?_, fun i hi node hm => ?_, ?_, ?_, by rw [hsize, hn]; rfl⟩, hh⟩
  · have := Nat.and_le_right (n := (d.hash lock).toNat) (m := d.chains.size - 1)
    rw [bucketIndex]; omega
  · rw [hempty i hi] at hm; cases hm
  · rw [hh]; exact List.nodup_nil
  · rw [hh]; exact fun _ hm => by cases hm

theorem sound_create (hash : LockId → UInt64) (poolSize buckets : Nat) :
    (create hash poolSize buckets).Sound ∧ (create hash poolSize buckets).holdings = [] := by
  refine sound_of_empty ?_ (fun i hi => by simp [create]) rfl
  simp only [create, Array.size_replicate]
  exact Nat.pos_of_isPowerOfTwo (Nat.isPowerOfTwo_nextPowerOfTwo _)

theorem ledger_create (hash : LockId → UInt64) (poolSize buckets : Nat) :
    Directory.ledger (create hash poolSize buckets) = ∅ :=
  congrArg Ledger.ofHoldings (sound_create hash poolSize buckets).2

theorem chains_foldl_returnNode (nodes : List Node) (d : PooledDirectory) :
    (nodes.foldl returnNode d).chains = d.chains := by
  induction nodes generalizing d with
  | nil => rfl
  | cons node nodes ih => rw [List.foldl_cons, ih, chains_returnNode]

theorem sound_clear (hd : d.Sound) : d.clear.Sound ∧ d.clear.holdings = [] := by
  have hc : d.clear.chains = d.chains.map fun _ => [] := chains_foldl_returnNode ..
  refine sound_of_empty ?_ (fun i hi => by simp [hc]) rfl
  rw [hc, Array.size_map]
  exact Nat.zero_lt_of_lt (hd.bucket_lt ⟨0⟩)

/-! ## The laws -/

theorem node?_none (hd : d.Sound) (hm : lock ∉ ledger d) : d.node? lock = none := by
  have h := Ledger.lookup_ofHoldings d.holdings lock
  rw [← find?_holdings hd, find?, Option.map_map] at h
  exact Option.map_eq_none_iff.mp (h.symm.trans (Finmap.lookup_eq_none.mpr hm))

theorem node?_held (hd : d.Sound) (h : (ledger d).lookup lock = some k) :
    ∃ node, d.node? lock = some node ∧ node.holding = ⟨lock, k⟩ := by
  obtain ⟨-, node, -, hnode, hholds, -⟩ := held_split hd h
  exact ⟨node, hnode, hholds⟩

instance : LawfulDirectory PooledDirectory where
  Sound := Sound
  distinct hd := hd.distinct
  positive hd := hd.positive
  size_eq hd := by
    refine (Sound.size_eq hd).trans ?_
    exact (List.length_map _).symm
  find?_eq hd := find?_holdings hd _
  place_of_room hd hm _ := becomes_place hd hm
  place_of_full _ hfull := by cases hfull
  increment_of_absent {d lock} hd hm := by
    show Option.map _ (d.find? lock) = none
    rw [find?, node?_none hd hm]; rfl
  increment_of_held {d lock n} hd h := by
    obtain ⟨node, hnode, hholds⟩ := node?_held hd h
    refine ⟨_, ?_, becomes_setDepth hd h (Nat.le_add_left 1 n)⟩
    show Option.map _ (d.find? lock) = _
    rw [find?, hnode, Option.map_some, hholds]; rfl
  decrement_of_absent {d lock} hd hm := by
    show Option.map _ (d.node? lock) = none
    rw [node?_none hd hm]; rfl
  decrement_of_nested {d lock n} hd h hn := by
    obtain ⟨node, hnode, hholds⟩ := node?_held hd h
    refine ⟨_, ?_, becomes_setDepth hd h (Nat.le_sub_one_of_lt hn)⟩
    show Option.map _ (d.node? lock) = _
    rw [hnode, Option.map_some, hholds]
    exact congrArg some (if_pos hn)
  decrement_of_last {d lock} hd h := by
    obtain ⟨node, hnode, hholds⟩ := node?_held hd h
    refine ⟨_, ?_, becomes_detach hd h hnode⟩
    show Option.map _ (d.node? lock) = _
    rw [hnode, Option.map_some, hholds]
    exact congrArg some (if_neg (Nat.lt_irrefl 1))
  remove_of_absent {d lock} hd hm := by
    show Option.map _ (d.node? lock) = none
    rw [node?_none hd hm]; rfl
  remove_of_held {d lock n} hd h := by
    obtain ⟨node, hnode, hholds⟩ := node?_held hd h
    refine ⟨_, ?_, becomes_detach hd h hnode⟩
    show Option.map _ (d.node? lock) = _
    rw [hnode, Option.map_some, hholds]
  clear_law {d} hd := ⟨(sound_clear hd).1, rfl, congrArg Ledger.ofHoldings (sound_clear hd).2⟩

end PooledDirectory

end LockElision
