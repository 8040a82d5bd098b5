import LockElision.Directory.Slots
import LockElision.Proofs.Directory.Lawful

/-!
# Slot tables are lawful

A sound table is known from the list of its holdings: they fill the front of the slots, and every
slot behind them is vacant (`Sound.slots_eq`). So each operation is described by what it does to
that list: `place` appends, `increment` and `decrement` overwrite in place, and `vacate` moves the
last holding into the hole.
-/

namespace LockElision

namespace SlotTable

variable {n : Nat} {t : SlotTable n} {lock : LockId} {h x : Holding} {l₁ l₂ hs : List Holding}

structure Sound (t : SlotTable n) : Prop where
  /-- The holdings come first; behind them every slot is vacant. -/
  slots_eq : t.slots.toList = t.holdings ++ List.replicate (n - t.size) Holding.vacant
  size_le : t.size ≤ n
  distinct : Distinct t.holdings
  positive : ∀ h ∈ t.holdings, 1 ≤ h.depth

theorem Sound.length_holdings (ht : t.Sound) : t.holdings.length = t.size := by
  have := ht.size_le
  simp [holdings, this]

/-- Slots that start with a list of holdings and are vacant behind it make a sound table. -/
theorem sound_of_slots
    (hslots : t.slots.toList = hs ++ List.replicate (n - hs.length) Holding.vacant)
    (hsize : t.size = hs.length) (hd : Distinct hs) (hp : ∀ h ∈ hs, 1 ≤ h.depth) :
    t.Sound ∧ t.holdings = hs := by
  have hh : t.holdings = hs := by rw [holdings, hslots, hsize, List.take_left]
  have hlen := congrArg List.length hslots
  simp only [Vector.length_toList, List.length_append, List.length_replicate] at hlen
  exact ⟨⟨by rw [hh, hslots, hsize], by omega, by rwa [hh], by rwa [hh]⟩, hh⟩

theorem sound_empty (n : Nat) : (empty n).Sound ∧ (empty n).holdings = [] :=
  sound_of_slots (by simp [empty]) rfl List.nodup_nil (by simp)

theorem ledger_empty (n : Nat) : Directory.ledger (empty n) = ∅ :=
  congrArg Ledger.ofHoldings (sound_empty n).2

/-! ## Reading -/

theorem position?_split (hh : t.holdings = l₁ ++ h :: l₂) (hne : ∀ a ∈ l₁, a.lock ≠ h.lock) :
    t.position? h.lock = some l₁.length := by
  have hn : l₁.findIdx? (·.lock == h.lock) = none :=
    List.findIdx?_eq_none_iff.mpr fun a ha => by simpa using hne a ha
  rw [position?, hh, List.findIdx?_append, hn]
  simp [List.findIdx?_cons]

theorem position?_none (hm : lock ∉ Directory.ledger t) : t.position? lock = none := by
  refine List.findIdx?_eq_none_iff.mpr fun a ha => ?_
  have hne : a.lock ≠ lock := fun he => hm (Ledger.mem_ofHoldings.mpr ⟨a, ha, he⟩)
  simpa using hne

theorem slot_split (ht : t.Sound) (hh : t.holdings = l₁ ++ h :: l₂) : t.slot l₁.length = h := by
  rw [slot, ← Vector.getElem?_toList, ht.slots_eq, hh]
  simp

/-! ## Writing -/

theorem place_sound (ht : t.Sound) (hroom : t.size < n) (hm : lock ∉ Directory.ledger t) :
    ∃ t' : SlotTable n, t.place lock = .placed t' none ∧ t'.Sound ∧
      t'.holdings = t.holdings ++ [Holding.first lock] := by
  have hlen := ht.length_holdings
  obtain ⟨k, hk⟩ : ∃ k, n - t.size = k + 1 := ⟨n - t.size - 1, by omega⟩
  refine ⟨_, by rw [place, if_neg (Nat.ne_of_lt hroom)], sound_of_slots ?_ ?_ ?_ ?_⟩
  · have hk' : n - (t.size + 1) = k := by omega
    simp only [Vector.toList_setIfInBounds]
    rw [ht.slots_eq, List.set_append_right _ _ (by omega), hlen, hk]
    simp [List.replicate_succ, hlen, hk']
  · simp [hlen]
  · refine Distinct.perm (List.perm_append_singleton _ _).symm (Distinct.cons.mpr ⟨?_, ht.distinct⟩)
    exact fun a ha he => hm (Ledger.mem_ofHoldings.mpr ⟨a, ha, he⟩)
  · intro a ha
    rcases List.mem_append.mp ha with ha | ha
    · exact ht.positive a ha
    · rw [List.mem_singleton.mp ha]; exact Nat.le_refl 1

theorem set_sound (ht : t.Sound) (hh : t.holdings = l₁ ++ h :: l₂) (hl : x.lock = h.lock)
    (hx : 1 ≤ x.depth) :
    (⟨t.slots.setIfInBounds l₁.length x, t.size⟩ : SlotTable n).Sound ∧
      (⟨t.slots.setIfInBounds l₁.length x, t.size⟩ : SlotTable n).holdings = l₁ ++ x :: l₂ := by
  have hlen := ht.length_holdings
  have hd := ht.distinct
  rw [hh] at hlen hd
  simp only [List.length_append, List.length_cons] at hlen
  refine sound_of_slots ?_ (by simp [← hlen]) (by simpa [Distinct, hl] using hd) ?_
  · simp only [Vector.toList_setIfInBounds, ht.slots_eq, hh, ← hlen]
    simp
  · intro a ha
    rcases List.mem_append.mp ha with ha | ha
    · exact ht.positive a (by rw [hh]; exact List.mem_append_left _ ha)
    · rcases List.mem_cons.mp ha with rfl | ha
      · exact hx
      · exact ht.positive a (by rw [hh]; simp [ha])

/-- The last element, if any, comes to the front. -/
def moveLast (l : List Holding) : List Holding := l.getLast?.toList ++ l.dropLast

theorem moveLast_concat (l : List Holding) (x : Holding) : moveLast (l ++ [x]) = x :: l := by
  simp [moveLast]

theorem moveLast_perm (l : List Holding) : (moveLast l).Perm l := by
  rcases List.eq_nil_or_concat' l with rfl | ⟨l, x, rfl⟩
  · exact .refl _
  · rw [moveLast_concat]; exact (List.perm_append_singleton x l).symm

theorem moveLast_hole (l₁ l₂ : List Holding) (h : Holding) :
    (l₁ ++ h :: l₂).Perm (h :: (l₁ ++ moveLast l₂)) :=
  List.perm_middle.trans (((moveLast_perm l₂).symm.append_left l₁).cons h)

theorem vacate_slots (ht : t.Sound) (hh : t.holdings = l₁ ++ h :: l₂) :
    (t.vacate l₁.length).slots.toList =
      l₁ ++ moveLast l₂ ++ List.replicate (n - t.size + 1) Holding.vacant := by
  have hlen := ht.length_holdings
  rw [hh] at hlen
  simp only [List.length_append, List.length_cons] at hlen
  rcases List.eq_nil_or_concat' l₂ with rfl | ⟨l, x, rfl⟩
  -- the hole is the last filled slot
  · have hlast : t.size - 1 = l₁.length := by simp at hlen; omega
    simp only [vacate, hlast, Vector.toList_setIfInBounds, ht.slots_eq, hh]
    simp [moveLast, List.replicate_succ]
  -- the last holding fills the hole
  · have hlast : t.size - 1 = (l₁ ++ h :: l).length := by simp at hlen ⊢; omega
    have hend : t.holdings = (l₁ ++ h :: l) ++ x :: [] := by rw [hh, List.append_assoc]; rfl
    have hslot := slot_split ht hend
    simp only [vacate, hlast, hslot, Vector.toList_setIfInBounds, ht.slots_eq, hh]
    rw [moveLast_concat, List.length_append]
    simp [List.replicate_succ]

theorem vacate_sound (ht : t.Sound) (hh : t.holdings = l₁ ++ h :: l₂) :
    (t.vacate l₁.length).Sound ∧ (t.vacate l₁.length).holdings = l₁ ++ moveLast l₂ := by
  have hlen := ht.length_holdings
  have hle := ht.size_le
  rw [hh] at hlen
  simp only [List.length_append, List.length_cons] at hlen
  have hp : t.holdings.Perm (h :: (l₁ ++ moveLast l₂)) := by rw [hh]; exact moveLast_hole ..
  have hml : (l₁ ++ moveLast l₂).length = t.size - 1 := by
    have := hp.length_eq; rw [ht.length_holdings] at this; simp at this ⊢; omega
  refine sound_of_slots ?_ ?_ (Distinct.cons.mp (ht.distinct.perm hp)).2 ?_
  · rw [vacate_slots ht hh, hml, show n - (t.size - 1) = n - t.size + 1 by omega]
  · rw [hml]; rfl
  · exact fun a ha => ht.positive a (hp.mem_iff.mpr (List.mem_cons_of_mem _ ha))

/-! ## The laws -/

open Directory

theorem held_split {k : Nat} (ht : t.Sound) (h : (ledger t).lookup lock = some k) :
    ∃ l₁ l₂, t.holdings = l₁ ++ ⟨lock, k⟩ :: l₂ ∧ t.position? lock = some l₁.length ∧
      t.slot l₁.length = ⟨lock, k⟩ := by
  obtain ⟨l₁, l₂, hh, hne⟩ := Ledger.split_of_lookup h
  exact ⟨l₁, l₂, hh, position?_split hh hne, slot_split ht hh⟩

theorem becomes_set (ht : t.Sound) (hh : t.holdings = l₁ ++ h :: l₂) {k : Nat} (hk : 1 ≤ k) :
    Becomes Sound t (⟨t.slots.setIfInBounds l₁.length { h with depth := k }, t.size⟩ : SlotTable n)
      ((ledger t).insert h.lock k) := by
  obtain ⟨hs, hh'⟩ := set_sound (x := { h with depth := k }) ht hh rfl hk
  refine ⟨hs, rfl, ?_⟩
  have hd : Distinct (l₁ ++ h :: l₂) := by rw [← hh]; exact ht.distinct
  show Ledger.ofHoldings (holdings _) = (Ledger.ofHoldings t.holdings).insert h.lock k
  rw [hh, hh', ← Ledger.ofHoldings_set hd]

theorem becomes_vacate (ht : t.Sound) (hh : t.holdings = l₁ ++ h :: l₂) :
    Becomes Sound t (t.vacate l₁.length) ((ledger t).erase h.lock) := by
  obtain ⟨hs, hh'⟩ := vacate_sound ht hh
  refine ⟨hs, rfl, ?_⟩
  have hp : t.holdings.Perm (h :: (l₁ ++ moveLast l₂)) := by rw [hh]; exact moveLast_hole ..
  show Ledger.ofHoldings (holdings _) = (Ledger.ofHoldings t.holdings).erase h.lock
  rw [hh', Ledger.erase_ofHoldings hp ht.distinct]

theorem becomes_place {t' : SlotTable n} (ht' : t'.Sound)
    (hh : t'.holdings = t.holdings ++ [Holding.first lock]) :
    Becomes Sound t t' ((ledger t).insert lock 1) := by
  refine ⟨ht', rfl, ?_⟩
  have hd : Distinct (t.holdings ++ [Holding.first lock]) := by rw [← hh]; exact ht'.distinct
  show Ledger.ofHoldings t'.holdings = _
  rw [hh, Ledger.ofHoldings_perm (List.perm_append_singleton _ _) hd]
  exact Ledger.ofHoldings_cons ..

instance : LawfulDirectory (SlotTable n) where
  Sound := Sound
  distinct ht := ht.distinct
  positive ht := ht.positive
  size_eq ht := ht.length_holdings.symm
  find?_eq _ := rfl
  place_of_room ht hm hroom := by
    obtain ⟨t', he, hs, hh⟩ := place_sound ht (of_decide_eq_true hroom) hm
    exact ⟨t', none, he, becomes_place hs hh⟩
  place_of_full {t} ht hfull _ := by
    have hn : ¬ t.size < n := of_decide_eq_false hfull
    exact ⟨n, rfl, if_pos (Nat.le_antisymm ht.size_le (Nat.le_of_not_lt hn))⟩
  increment_of_absent _ hm := by
    show Option.map _ _ = _
    rw [position?_none hm]; rfl
  increment_of_held ht h := by
    obtain ⟨l₁, l₂, hh, hp, hs⟩ := held_split ht h
    refine ⟨_, ?_, becomes_set ht hh (Nat.le_add_left 1 _)⟩
    show Option.map _ _ = _
    rw [hp, Option.map_some, hs]
  decrement_of_absent _ hm := by
    show Option.map _ _ = _
    rw [position?_none hm]; rfl
  decrement_of_nested ht h hk := by
    obtain ⟨l₁, l₂, hh, hp, hs⟩ := held_split ht h
    refine ⟨_, ?_, becomes_set ht hh (Nat.le_sub_one_of_lt hk)⟩
    show Option.map _ _ = _
    rw [hp, Option.map_some, hs]
    exact congrArg some (if_pos hk)
  decrement_of_last ht h := by
    obtain ⟨l₁, l₂, hh, hp, hs⟩ := held_split ht h
    refine ⟨_, ?_, becomes_vacate ht hh⟩
    show Option.map _ _ = _
    rw [hp, Option.map_some, hs]
    exact congrArg some (if_neg (Nat.lt_irrefl 1))
  remove_of_absent _ hm := by
    show Option.map _ _ = _
    rw [position?_none hm]; rfl
  remove_of_held ht h := by
    obtain ⟨l₁, l₂, hh, hp, hs⟩ := held_split ht h
    refine ⟨_, ?_, becomes_vacate ht hh⟩
    show Option.map _ _ = _
    rw [hp, Option.map_some, hs]
  clear_law _ := ⟨(sound_empty n).1, rfl, by rw [ledger]; exact congrArg _ (sound_empty n).2⟩

end SlotTable

end LockElision
