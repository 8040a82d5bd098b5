import LockElision.Proofs.Directory.Pool

/-!
# Directories that are restored

A lock that is recorded and taken out again, with nothing done to it between, leaves a directory as
it was. In a slot table it takes the first vacant slot, and leaves it vacant. In a pooled directory
it comes to the front of its chain on the first free node, which is the first free node again when
it has left; a node that had to be made is thrown away, and counted (`PooledDirectory.spent`).

The same goes for a recorded lock that is entered one level deeper and left again, which overwrites
its depth twice, and the last level that is left takes the lock out. So a lock that is entered and
left in turn leaves no trace (`ReversibleDirectory`).
-/

namespace LockElision

open Directory LawfulDirectory

/-! ## Slot tables -/

namespace SlotTable

variable {n : Nat} {t t' : SlotTable n} {lock : LockId} {notice : Option Exhaustion}

theorem remove_place (ht : t.Sound) (hm : lock ∉ ledger t)
    (hp : t.place lock = .placed t' notice) :
    notice = none ∧ t'.Sound ∧ t'.remove lock = some (Holding.first lock, t) := by
  have hroom : t.size < n := by
    rcases Nat.lt_or_eq_of_le ht.size_le with hlt | heq
    · exact hlt
    · rw [place, if_pos heq] at hp
      cases hp
  obtain ⟨t₁, hp₁, ht', hh⟩ := place_sound ht hroom hm
  rw [hp] at hp₁
  obtain ⟨rfl, rfl⟩ := Placement.placed.inj hp₁
  have hsize : t'.size = t.size + 1 := by
    rw [← ht'.length_holdings, hh, List.length_append, ht.length_holdings]
    rfl
  have hne : ∀ a ∈ t.holdings, a.lock ≠ (Holding.first lock).lock :=
    fun a ha he => hm (Ledger.mem_ofHoldings.mpr ⟨a, ha, he⟩)
  have hposition : t'.position? lock = some t.holdings.length := position?_split hh hne
  have hslots : (t'.vacate t.holdings.length).slots = t.slots := by
    apply Vector.toList_inj.mp
    rw [vacate_slots ht' hh, ht.slots_eq, hsize]
    have hvacant : n - (t.size + 1) + 1 = n - t.size := by omega
    rw [hvacant]
    simp [moveLast]
  have hvacated : t'.vacate t.holdings.length = t := by
    have hlast : (t'.vacate t.holdings.length).size = t.size := by
      show t'.size - 1 = t.size
      omega
    obtain ⟨slots, size⟩ := t
    exact congrArg₂ SlotTable.mk hslots hlast
  refine ⟨rfl, ht', ?_⟩
  rw [remove, hposition, Option.map_some, hvacated, slot_split ht' hh]

theorem decrement_increment {k depth : Nat} (ht : t.Sound) (hl : (ledger t).lookup lock = some k)
    (hi : t.increment lock = some (depth, t')) :
    t'.Sound ∧ t'.decrement lock = some (k, t) := by
  obtain ⟨l₁, l₂, hh, hne⟩ := Ledger.split_of_lookup hl
  replace hh : t.holdings = l₁ ++ ⟨lock, k⟩ :: l₂ := hh
  have hk : 1 ≤ k := depth_pos (d := t) ht hl
  rw [increment, position?_split hh hne, Option.map_some, slot_split ht hh] at hi
  obtain ⟨-, rfl⟩ := Prod.mk.inj (Option.some.inj hi)
  obtain ⟨ht', hh'⟩ := set_sound (x := ⟨lock, k + 1⟩) ht hh rfl (Nat.le_add_left 1 k)
  have hslots : (t.slots.setIfInBounds l₁.length ⟨lock, k + 1⟩).setIfInBounds l₁.length ⟨lock, k⟩ =
      t.slots := by
    apply Vector.toList_inj.mp
    simp only [Vector.toList_setIfInBounds, List.set_set, ht.slots_eq, hh]
    simp
  refine ⟨ht', ?_⟩
  rw [decrement, position?_split hh' hne, Option.map_some, slot_split ht' hh']
  simp only [Nat.add_sub_cancel, hslots]
  exact congrArg some (if_pos (by omega))

theorem decrement_of_remove (h : t.remove lock = some (Holding.first lock, t')) :
    t.decrement lock = some (0, t') := by
  obtain ⟨i, hposition, hremove⟩ := Option.map_eq_some_iff.mp h
  obtain ⟨hslot, rfl⟩ := Prod.mk.inj hremove
  rw [decrement, hposition, Option.map_some, hslot]
  rfl

end SlotTable

/-! ## Pooled directories -/

namespace PooledDirectory

variable {d d' : PooledDirectory} {lock : LockId} {node : Node} {notice : Option Exhaustion}

/-- The same directory after some nodes more were made and thrown away. -/
def spent (d : PooledDirectory) (made : Nat) : PooledDirectory :=
  { d with
    dynamicAllocations := d.dynamicAllocations + made
    dynamicReleases := d.dynamicReleases + made }

theorem remove_front (hi : d.bucketIndex lock < d.chains.size) (hl : node.holding.lock = lock)
    (hhash : d'.hash = d.hash) (hchains : d'.chains = (d.editChain lock (node :: ·)).chains) :
    d'.remove lock = some (node.holding,
      { d' with chains := d.chains, size := d'.size - 1 }.returnNode node) := by
  have hindex : d'.bucketIndex lock = d.bucketIndex lock := by
    refine bucketIndex_congr hhash ?_ lock
    rw [hchains, chains_editChain, Array.size_modify]
  have hcut : (d'.editChain node.holding.lock
      fun chain => chain.eraseP (·.holding.lock == node.holding.lock)).chains = d.chains := by
    have hundo : (fun chain : List Node => chain.eraseP (·.holding.lock == lock)) ∘ (node :: ·) =
        id := by
      funext chain
      rw [Function.comp_apply, List.eraseP_cons_of_pos (by simpa using hl), id]
    rw [hl, chains_editChain, hindex, hchains, chains_editChain]
    apply Array.toList_inj.mp
    rw [Array.toList_modify, Array.toList_modify, List.modify_modify_eq, hundo, List.modify_id]
  rw [remove, node?_front hi hl hhash hchains, Option.map_some, ← hcut]
  rfl

/-- Taking out the lock that was placed last gives its node back, or throws away a made one. -/
theorem remove_place (hd : d.Sound) (hs : d.Stocked []) (hp : d.place lock = .placed d' notice)
    (made : Nat) : (d'.spent made).remove lock =
      some (Holding.first lock, d.spent (notice.toList.length + made)) := by
  have hi := hd.bucket_lt lock
  obtain ⟨hhash, hchains⟩ := place_front hp
  have hfront := remove_front hi rfl (show (d'.spent made).hash = d.hash from hhash) hchains
  rw [hfront]
  rcases hs.free_cases with ⟨hf, -⟩ | ⟨n, hn, hf⟩
  -- the node was made, and is thrown away
  · rw [place_of_dry hf] at hp
    obtain ⟨rfl, rfl⟩ := Placement.placed.inj hp
    have hmade : d.dynamicAllocations + (1 + made) = d.dynamicAllocations + 1 + made := by omega
    have hthrown : d.dynamicReleases + (1 + made) = d.dynamicReleases + made + 1 := by omega
    rw [drawNode_of_dry hf]
    show _ = some (Holding.first lock, { d with
      dynamicAllocations := d.dynamicAllocations + (1 + made)
      dynamicReleases := d.dynamicReleases + (1 + made) })
    rw [hmade, hthrown]
    rfl
  -- the first free node was drawn, and comes first again
  · rw [place_of_free hf] at hp
    obtain ⟨rfl, rfl⟩ := Placement.placed.inj hp
    have hcount : d.freeCount - 1 + 1 = d.freeCount := by omega
    have hmade : 0 + made = made := Nat.zero_add made
    rw [drawNode_of_free hf]
    show some (Holding.first lock, { d with
      free := ⟨Holding.vacant, .pool⟩ :: List.replicate n ⟨Holding.vacant, .pool⟩
      freeCount := d.freeCount - 1 + 1
      dynamicAllocations := d.dynamicAllocations + made
      dynamicReleases := d.dynamicReleases + made }) = some (Holding.first lock, d.spent (0 + made))
    rw [← hf, hcount, hmade]
    rfl

theorem editChain_editChain {f g : List Node → List Node} (hi : d.bucketIndex lock < d.chains.size)
    (h : g (f (d.chain lock)) = d.chain lock) : (d.editChain lock f).editChain lock g = d := by
  have hsize : (d.editChain lock f).chains.size = d.chains.size := Array.size_modify ..
  have hindex : (d.editChain lock f).bucketIndex lock = d.bucketIndex lock :=
    bucketIndex_congr (show (d.editChain lock f).hash = d.hash from rfl) hsize lock
  have hchains : ((d.editChain lock f).editChain lock g).chains = d.chains := by
    rw [chains_editChain, hindex, chains_editChain]
    refine Array.ext (by rw [Array.size_modify, Array.size_modify]) fun i hi₁ hi₂ => ?_
    rw [Array.getElem_modify, Array.getElem_modify]
    by_cases he : d.bucketIndex lock = i
    · subst he
      rw [if_pos rfl, if_pos rfl, ← chain_eq hi, h]
    · rw [if_neg he, if_neg he]
  show { d with chains := ((d.editChain lock f).editChain lock g).chains } = d
  rw [hchains]

theorem setDepth_setDepth {k : Nat} (hd : d.Sound) (hl : (ledger d).lookup lock = some k)
    (depth : Nat) : (d.setDepth lock depth).setDepth lock k = d := by
  refine editChain_editChain (hd.bucket_lt lock) ?_
  rw [List.map_map]
  refine (List.map_congr_left fun node hm => ?_).trans (List.map_id _)
  by_cases he : node.holding.lock = lock
  · obtain ⟨before, after, hn, -⟩ := chain_split hd lock
    have hmem : node.holding ∈ d.holdings := by
      rw [holdings, hn]
      exact List.mem_map_of_mem (List.mem_append_left _ (List.mem_append_right _ hm))
    have hlookup : (ledger d).lookup lock = some node.holding.depth :=
      he ▸ Ledger.lookup_of_mem hd.distinct hmem
    obtain rfl : k = node.holding.depth := Option.some.inj (hl.symm.trans hlookup)
    subst he
    simp
  · simp [he]

theorem decrement_setDepth {k : Nat} (hd : d.Sound) (hl : (ledger d).lookup lock = some k)
    (made : Nat) : ((d.setDepth lock (k + 1)).spent made).decrement lock =
      some (k, d.spent made) := by
  have hk : 1 ≤ k := depth_pos (d := d) hd hl
  have hdeeper := becomes_setDepth hd hl (Nat.le_add_left 1 k)
  have hlookup : (ledger (d.setDepth lock (k + 1))).lookup lock = some (k + 1) := by
    rw [hdeeper.ledger, Finmap.lookup_insert]
  obtain ⟨node, hnode, hholds⟩ := node?_held hdeeper.sound hlookup
  have hnode : ((d.setDepth lock (k + 1)).spent made).node? lock = some node := hnode
  rw [decrement, hnode, Option.map_some, hholds]
  refine congrArg some ((if_pos (Nat.lt_add_of_pos_left hk)).trans ?_)
  show (k, ((d.setDepth lock (k + 1)).setDepth lock k).spent made) = _
  rw [setDepth_setDepth hd hl]

theorem decrement_of_remove (h : d.remove lock = some (Holding.first lock, d')) :
    d.decrement lock = some (0, d') := by
  obtain ⟨node, hnode, hremove⟩ := Option.map_eq_some_iff.mp h
  obtain ⟨hholds, rfl⟩ := Prod.mk.inj hremove
  rw [decrement, hnode, Option.map_some, hholds]
  rfl

theorem sound_spent (hd : d.Sound) (made : Nat) : (d.spent made).Sound :=
  ⟨hd.bucket_lt, hd.placed, hd.distinct, hd.positive, hd.size_eq⟩

theorem spent_stocked (hs : d.Stocked []) (made : Nat) : (d.spent made).Stocked [] := by
  refine ⟨hs.free_eq, hs.pool, hs.dynamic, ?_⟩
  have hbalance := hs.balance
  show d.dynamicAllocations + made = d.dynamicReleases + made + d.dynamicInUse
  omega

end PooledDirectory

/-! ## The laws -/

/-- Taking out the lock that came last undoes what recording it did, but for what was spent. -/
class RestoringDirectory (D : Type) [Directory D] [LawfulDirectory D] where
  Fit : D → Prop
  /-- The same directory after some nodes more were made and thrown away. -/
  spent : D → Nat → D
  /-- How many of some locks to come need a node that is made. -/
  dry : D → Nat → Nat
  sound {d : D} : Fit d → Sound d
  spent_zero {d : D} : spent d 0 = d
  contains_spent (d : D) (made : Nat) (lock : LockId) :
    contains (spent d made) lock = contains d lock
  dry_zero {d : D} : dry d 0 = 0
  dry_full {d : D} {lock : LockId} {n : Nat} (k : Nat) : place d lock = .full n → dry d k = 0
  place {d d' : D} {lock : LockId} {notice : Option Exhaustion} : Fit d → lock ∉ ledger d →
    place d lock = .placed d' notice →
    Fit d' ∧ (∀ k, dry d (k + 1) = notice.toList.length + dry d' k) ∧
      ∀ made, remove (spent d' made) lock =
        some (Holding.first lock, spent d (notice.toList.length + made))

instance {n : Nat} : RestoringDirectory (SlotTable n) where
  Fit := SlotTable.Sound
  spent t _ := t
  dry _ _ := 0
  sound ht := ht
  spent_zero := rfl
  contains_spent _ _ _ := rfl
  dry_zero := rfl
  dry_full _ _ := rfl
  place ht hm hp := by
    obtain ⟨rfl, ht', hremove⟩ := SlotTable.remove_place ht hm hp
    exact ⟨ht', fun _ => rfl, fun _ => hremove⟩

instance : RestoringDirectory PooledDirectory where
  Fit d := d.Sound ∧ d.Stocked []
  spent := PooledDirectory.spent
  dry d k := k - d.free.length
  sound hd := hd.1
  spent_zero := rfl
  contains_spent _ _ _ := rfl
  dry_zero := Nat.zero_sub _
  dry_full _ hp := by cases hp
  place {d d' lock notice} hd hm hp := by
    obtain ⟨hd, hs⟩ := hd
    have hd' : d'.Sound := (placed_becomes (d := d) hd hm hp).sound
    refine ⟨⟨hd', PooledDirectory.place_stocked hd hs hp⟩, fun k => ?_,
      PooledDirectory.remove_place hd hs hp⟩
    rcases hs.free_cases with ⟨hf, -⟩ | ⟨n, -, hf⟩
    · have hp : d.place lock = .placed d' notice := hp
      rw [PooledDirectory.place_of_dry hf] at hp
      obtain ⟨rfl, rfl⟩ := Placement.placed.inj hp
      show k + 1 - d.free.length = 1 + (k - d.free.length)
      rw [hf, List.length_nil]
      omega
    · have hp : d.place lock = .placed d' notice := hp
      rw [PooledDirectory.place_of_free hf] at hp
      obtain ⟨rfl, rfl⟩ := Placement.placed.inj hp
      show k + 1 - d.free.length = 0 + (k - (List.replicate n _).length)
      rw [hf, List.length_cons]
      omega

/-- Leaving a lock as often as it was entered undoes every entry, but for what was spent. -/
class ReversibleDirectory (D : Type) [Directory D] [LawfulDirectory D] extends
    RestoringDirectory D where
  fit_spent {d : D} : Fit d → ∀ made, Fit (spent d made)
  spent_spent (d : D) (made made' : Nat) : spent (spent d made) made' = spent d (made + made')
  ledger_spent (d : D) (made : Nat) : ledger (spent d made) = ledger d
  capacity_spent (d : D) (made : Nat) : capacity (spent d made) = capacity d
  decrement_of_remove {d d' : D} {lock : LockId} :
    remove d lock = some (Holding.first lock, d') → decrement d lock = some (0, d')
  decrement_increment {d d' : D} {lock : LockId} {n depth : Nat} : Fit d →
    (ledger d).lookup lock = some n → increment d lock = some (depth, d') →
    Fit d' ∧ (∀ k, dry d' k = dry d k) ∧
      ∀ made, decrement (spent d' made) lock = some (n, spent d made)

instance {n : Nat} : ReversibleDirectory (SlotTable n) where
  fit_spent ht _ := ht
  spent_spent _ _ _ := rfl
  ledger_spent _ _ := rfl
  capacity_spent _ _ := rfl
  decrement_of_remove h := SlotTable.decrement_of_remove h
  decrement_increment ht hl hi := by
    obtain ⟨ht', hback⟩ := SlotTable.decrement_increment ht hl hi
    exact ⟨ht', fun _ => rfl, fun _ => hback⟩

instance : ReversibleDirectory PooledDirectory where
  fit_spent hd made :=
    ⟨PooledDirectory.sound_spent hd.1 made, PooledDirectory.spent_stocked hd.2 made⟩
  spent_spent d made made' := by
    simp only [RestoringDirectory.spent, PooledDirectory.spent, Nat.add_assoc]
  ledger_spent _ _ := rfl
  capacity_spent _ _ := rfl
  decrement_of_remove h := PooledDirectory.decrement_of_remove h
  decrement_increment {d d' lock n depth} hd hl hi := by
    obtain ⟨hd, hs⟩ := hd
    have hdeeper := (PooledDirectory.increment_held hd hl).symm.trans hi
    obtain ⟨-, rfl⟩ := Prod.mk.inj (Option.some.inj hdeeper)
    have hd' := (PooledDirectory.becomes_setDepth hd hl (Nat.le_add_left 1 n)).sound
    exact ⟨⟨hd', PooledDirectory.setDepth_stocked hd hs hl _⟩, fun _ => rfl,
      PooledDirectory.decrement_setDepth hd hl⟩

end LockElision
