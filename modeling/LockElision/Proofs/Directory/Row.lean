import LockElision.Proofs.Directory.Command

/-!
# Slot tables answer like rows

A slot table shows its holdings in slot order, and what it does to them is seen best as what happens
to a row: a new lock joins at the end, a depth changes in place, and when a lock leaves, the last
holding takes its place (`Row.Vacated`). `Row.Effect` lists what a row with room for `n` holdings
answers to each command, and the row after it. A slot table gives exactly these answers
(`SlotTable.run_rowAnswered`), and it never reads or writes beyond its filled slots
(`SlotTable.Kept`).
-/

namespace LockElision

/-- The commands that ask about locks or about room: no ranges, no nodes, no texts. -/
def DirectoryCommand.isPlain : DirectoryCommand → Bool
  | isEmpty | hasRoom | capacity => true
  | c => c.isBasic

namespace Row

/-- No holding of the row is of this lock. -/
def Lacks (hs : List Holding) (lock : LockId) : Prop := ∀ h ∈ hs, h.lock ≠ lock

/-- The holding in place `i` left the row: it was the last one, or the last one moved there. -/
inductive Vacated : List Holding → (i : Nat) → Holding → List Holding → Prop where
  | last {l : List Holding} {h : Holding} : Vacated (l ++ [h]) l.length h l
  | filled {l₁ l₂ : List Holding} {h x : Holding} :
      Vacated (l₁ ++ h :: (l₂ ++ [x])) l₁.length h (l₁ ++ x :: l₂)

/-- What a row with room for `n` holdings answers to a command, and the row after it. -/
inductive Effect (n : Nat) : List Holding → DirectoryCommand → DirectoryReply → List Holding → Prop
  where
  | insert {hs : List Holding} {lock : LockId} : Lacks hs lock → hs.length < n →
      Effect n hs (.insert lock) .inserted (hs ++ [Holding.first lock])
  | insertFull {hs : List Holding} {lock : LockId} : Lacks hs lock → hs.length = n →
      Effect n hs (.insert lock) (.full n) hs
  /-- Noticed whether or not there is room. -/
  | insertTwice {hs : List Holding} {h : Holding} : h ∈ hs →
      Effect n hs (.insert h.lock) (.recordedTwice h.lock) hs
  | increment {l₁ l₂ : List Holding} {lock : LockId} {k : Nat} :
      Effect n (l₁ ++ ⟨lock, k⟩ :: l₂) (.increment lock) (.count (some (k + 1)))
        (l₁ ++ ⟨lock, k + 1⟩ :: l₂)
  | incrementMissing {hs : List Holding} {lock : LockId} : Lacks hs lock →
      Effect n hs (.increment lock) (.count none) hs
  | decrement {l₁ l₂ : List Holding} {lock : LockId} {k : Nat} : 1 < k →
      Effect n (l₁ ++ ⟨lock, k⟩ :: l₂) (.decrement lock) (.count (some (k - 1)))
        (l₁ ++ ⟨lock, k - 1⟩ :: l₂)
  | decrementLast {hs hs' : List Holding} {i : Nat} {lock : LockId} :
      Vacated hs i ⟨lock, 1⟩ hs' → Effect n hs (.decrement lock) (.count (some 0)) hs'
  | decrementMissing {hs : List Holding} {lock : LockId} : Lacks hs lock →
      Effect n hs (.decrement lock) (.count none) hs
  | remove {hs hs' : List Holding} {i : Nat} {h : Holding} : Vacated hs i h hs' →
      Effect n hs (.remove h.lock) (.holding (some h)) hs'
  | removeMissing {hs : List Holding} {lock : LockId} : Lacks hs lock →
      Effect n hs (.remove lock) (.holding none) hs
  | lookup {hs : List Holding} {lock : LockId} :
      Effect n hs (.lookup lock) (.holding (hs.find? (·.lock == lock))) hs
  | contains {hs : List Holding} {lock : LockId} :
      Effect n hs (.contains lock) (.flag (hs.any (·.lock == lock))) hs
  | clear {hs : List Holding} : Effect n hs .clear .done []
  | records {hs : List Holding} : Effect n hs .records (.holdings hs) hs
  | size {hs : List Holding} : Effect n hs .size (.count (some hs.length)) hs
  | capacity {hs : List Holding} : Effect n hs .capacity (.count (some n)) hs
  | isEmpty {hs : List Holding} : Effect n hs .isEmpty (.flag hs.isEmpty) hs
  | hasRoom {hs : List Holding} : Effect n hs .hasRoom (.flag (decide (hs.length < n))) hs

/-- The answers of a row to a list of commands. -/
inductive Effects (n : Nat) :
    List Holding → List DirectoryCommand → List DirectoryReply → List Holding → Prop where
  | nil {hs : List Holding} : Effects n hs [] [] hs
  | cons {hs hs' hs'' : List Holding} {c : DirectoryCommand} {r : DirectoryReply}
      {cs : List DirectoryCommand} {rs : List DirectoryReply} :
      Effect n hs c r hs' → Effects n hs' cs rs hs'' → Effects n hs (c :: cs) (r :: rs) hs''

/-- Every holding but the one that left and the last one keeps its place. -/
theorem Vacated.getElem? {hs hs' : List Holding} {i : Nat} {h : Holding} (hv : Vacated hs i h hs') :
    hs'.length + 1 = hs.length ∧
      ∀ j < hs'.length, hs'[j]? = if j = i then hs.getLast? else hs[j]? := by
  cases hv with
  | @last l h =>
    refine ⟨by simp, fun j hj => ?_⟩
    rw [if_neg (Nat.ne_of_lt hj), List.getElem?_append_left hj]
  | @filled l₁ l₂ h x =>
    refine ⟨by simp [Nat.add_assoc], fun j hj => ?_⟩
    rcases Nat.lt_trichotomy j l₁.length with hlt | rfl | hgt
    · rw [if_neg (Nat.ne_of_lt hlt), List.getElem?_append_left hlt, List.getElem?_append_left hlt]
    · have hlast : (l₁ ++ h :: (l₂ ++ [x])).getLast? = some x := by
        rw [← List.cons_append, ← List.append_assoc, List.getLast?_concat]
      simp [hlast]
    · obtain ⟨k, rfl⟩ : ∃ k, j = l₁.length + (k + 1) := ⟨j - l₁.length - 1, by omega⟩
      have hk : k < l₂.length := by simp at hj; omega
      rw [if_neg (by omega), List.getElem?_append_right (by omega),
        List.getElem?_append_right (by omega), Nat.add_sub_cancel_left, List.getElem?_cons_succ,
        List.getElem?_cons_succ, List.getElem?_append_left hk]

theorem Effect.inserted_iff {n : Nat} {hs hs' : List Holding} {lock : LockId} {r : DirectoryReply}
    (h : Effect n hs (.insert lock) r hs') (hm : Lacks hs lock) :
    r = .inserted ↔ hs.length < n := by
  cases h with
  | insert _ hlt => exact ⟨fun _ => hlt, fun _ => rfl⟩
  | insertFull _ hfull => exact ⟨nofun, fun hlt => absurd hfull (Nat.ne_of_lt hlt)⟩
  | insertTwice hmem => exact absurd rfl (hm _ hmem)

end Row

namespace SlotTable

open Directory

variable {n : Nat} {t : SlotTable n} {lock : LockId} {h x : Holding} {l₁ l₂ : List Holding}

/-! ## One command -/

theorem lacks_iff : Row.Lacks t.holdings lock ↔ lock ∉ ledger t := by
  rw [ledger, show Directory.holdings t = t.holdings from rfl, Ledger.mem_ofHoldings]
  simp [Row.Lacks]

theorem contains_eq_any (t : SlotTable n) (lock : LockId) :
    contains t lock = t.holdings.any (·.lock == lock) :=
  List.isSome_find?

theorem vacated (ht : t.Sound) (hh : t.holdings = l₁ ++ h :: l₂) :
    Row.Vacated t.holdings l₁.length h (t.vacate l₁.length).holdings := by
  rw [(vacate_sound ht hh).2, hh]
  rcases List.eq_nil_or_concat' l₂ with rfl | ⟨l, x, rfl⟩
  · rw [show moveLast [] = [] from rfl, List.append_nil]
    exact .last
  · rw [moveLast_concat]
    exact .filled

/-- The command is answered as a row answers it, and leaves the table sound. -/
structure RowAnswered (t : SlotTable n) (c : DirectoryCommand) : Prop where
  sound : (c.run t).2.1.Sound
  effect : Row.Effect n t.holdings c (c.run t).1 (c.run t).2.1.holdings

theorem rowAnswered_same {c : DirectoryCommand} {r : DirectoryReply} (ht : t.Sound)
    (he : c.run t = (r, t, [])) (h : Row.Effect n t.holdings c r t.holdings) :
    t.RowAnswered c := by
  constructor <;> rw [he]
  exacts [ht, h]

theorem rowAnswered_changed {c : DirectoryCommand} {r : DirectoryReply} {t' : SlotTable n}
    (he : c.run t = (r, t', [])) (ht : t'.Sound)
    (h : Row.Effect n t.holdings c r t'.holdings) : t.RowAnswered c := by
  constructor <;> rw [he]
  exacts [ht, h]

theorem insert_row (ht : t.Sound) (lock : LockId) : t.RowAnswered (.insert lock) := by
  have hc := contains_eq_any t lock
  by_cases hm : lock ∈ ledger t
  · obtain ⟨h, hmem, rfl⟩ := Ledger.mem_ofHoldings.mp hm
    exact rowAnswered_same ht (run_insert_twice (d := t) ht hm) (.insertTwice hmem)
  · have hlacks := lacks_iff.mpr hm
    have hfalse : contains t lock = false := by
      rw [hc, List.any_eq_false]
      exact fun h hmem => by simpa using hlacks h hmem
    have hlen := ht.length_holdings
    rcases Nat.lt_or_eq_of_le ht.size_le with hlt | hfull
    · obtain ⟨t', hp, ht', hh⟩ := place_sound ht hlt hm
      have hp : Directory.place t lock = .placed t' none := hp
      have hrun : DirectoryCommand.run t (.insert lock) = (.inserted, t', []) := by
        simp [DirectoryCommand.run, Directory.insert, hfalse, hp]
      refine rowAnswered_changed hrun ht' ?_
      rw [hh]
      exact .insert hlacks (hlen ▸ hlt)
    · have hp : Directory.place t lock = .full n := if_pos hfull
      have hrun : DirectoryCommand.run t (.insert lock) = (.full n, t, []) := by
        simp [DirectoryCommand.run, Directory.insert, hfalse, hp]
      exact rowAnswered_same ht hrun (.insertFull hlacks (hlen.trans hfull))

theorem increment_row (ht : t.Sound) (lock : LockId) : t.RowAnswered (.increment lock) := by
  cases hl : (ledger t).lookup lock with
  | none =>
    have hm := Finmap.lookup_eq_none.mp hl
    refine rowAnswered_same ht ?_ (.incrementMissing (lacks_iff.mpr hm))
    rw [DirectoryCommand.run, LawfulDirectory.increment_of_absent (d := t) ht hm]
    rfl
  | some k =>
    obtain ⟨l₁, l₂, hh, hp, hs⟩ := held_split ht hl
    obtain ⟨ht', hh'⟩ := set_sound (x := ⟨lock, k + 1⟩) ht hh rfl (Nat.le_add_left 1 k)
    have hrun : Directory.increment t lock =
        some (k + 1, ⟨t.slots.setIfInBounds l₁.length ⟨lock, k + 1⟩, t.size⟩) := by
      show Option.map _ (t.position? lock) = _
      rw [hp, Option.map_some, hs]
    refine rowAnswered_changed (by rw [DirectoryCommand.run, hrun]; rfl) ht' ?_
    rw [hh', hh]
    exact .increment

theorem decrement_row (ht : t.Sound) (lock : LockId) : t.RowAnswered (.decrement lock) := by
  cases hl : (ledger t).lookup lock with
  | none =>
    have hm := Finmap.lookup_eq_none.mp hl
    refine rowAnswered_same ht ?_ (.decrementMissing (lacks_iff.mpr hm))
    rw [DirectoryCommand.run, LawfulDirectory.decrement_of_absent (d := t) ht hm]
    rfl
  | some k =>
    obtain ⟨l₁, l₂, hh, hp, hs⟩ := held_split ht hl
    have hrun : Directory.decrement t lock = some (if 1 < k then
        (k - 1, ⟨t.slots.setIfInBounds l₁.length ⟨lock, k - 1⟩, t.size⟩)
      else (0, t.vacate l₁.length)) := by
      show Option.map _ (t.position? lock) = _
      rw [hp, Option.map_some, hs]
    by_cases hk : 1 < k
    · rw [if_pos hk] at hrun
      obtain ⟨ht', hh'⟩ := set_sound (x := ⟨lock, k - 1⟩) ht hh rfl (by show 1 ≤ k - 1; omega)
      refine rowAnswered_changed (by rw [DirectoryCommand.run, hrun]; rfl) ht' ?_
      rw [hh', hh]
      exact .decrement hk
    · rw [if_neg hk] at hrun
      obtain rfl : k = 1 := by have := LawfulDirectory.depth_pos (d := t) ht hl; omega
      exact rowAnswered_changed (by rw [DirectoryCommand.run, hrun]; rfl) (vacate_sound ht hh).1
        (.decrementLast (vacated ht hh))

theorem remove_row (ht : t.Sound) (lock : LockId) : t.RowAnswered (.remove lock) := by
  cases hl : (ledger t).lookup lock with
  | none =>
    have hm := Finmap.lookup_eq_none.mp hl
    refine rowAnswered_same ht ?_ (.removeMissing (lacks_iff.mpr hm))
    rw [DirectoryCommand.run, LawfulDirectory.remove_of_absent (d := t) ht hm]
  | some k =>
    obtain ⟨l₁, l₂, hh, hp, hs⟩ := held_split ht hl
    have hrun : Directory.remove t lock = some (⟨lock, k⟩, t.vacate l₁.length) := by
      show Option.map _ (t.position? lock) = _
      rw [hp, Option.map_some, hs]
    exact rowAnswered_changed (by rw [DirectoryCommand.run, hrun]) (vacate_sound ht hh).1
      (.remove (vacated ht hh))

/-- **One command.** A sound table answers it as its row of holdings does. -/
theorem run_rowAnswered (ht : t.Sound) {c : DirectoryCommand} (hc : c.isPlain = true) :
    t.RowAnswered c := by
  have hlen := ht.length_holdings
  cases c with
  | insert lock => exact insert_row ht lock
  | increment lock => exact increment_row ht lock
  | decrement lock => exact decrement_row ht lock
  | remove lock => exact remove_row ht lock
  | lookup lock => exact rowAnswered_same ht rfl .lookup
  | contains lock => exact rowAnswered_same ht rfl (contains_eq_any t lock ▸ .contains)
  | clear =>
    obtain ⟨ht', hh⟩ := sound_empty n
    exact rowAnswered_changed rfl ht' (hh ▸ .clear)
  | records => exact rowAnswered_same ht rfl .records
  | size =>
    have hsize : Directory.size t = t.holdings.length := hlen.symm
    exact rowAnswered_same ht rfl (hsize ▸ .size)
  | capacity => exact rowAnswered_same ht rfl .capacity
  | isEmpty =>
    have hempty : Directory.isEmpty t = t.holdings.isEmpty := by
      show (t.size == 0) = _
      rw [← hlen]
      cases t.holdings <;> rfl
    exact rowAnswered_same ht rfl (hempty ▸ .isEmpty)
  | hasRoom =>
    have hroom : Directory.hasRoom t = decide (t.holdings.length < n) := by rw [hlen]; rfl
    exact rowAnswered_same ht rfl (hroom ▸ .hasRoom)
  | _ => cases hc

/-! ## Runs of commands -/

/-- **A run of commands.** The answers are those of the row. -/
theorem answers_row (commands : List DirectoryCommand) (hc : ∀ c ∈ commands, c.isPlain = true) :
    ∀ t : SlotTable n, t.Sound → (answers t commands).2.Sound ∧
      Row.Effects n t.holdings commands (answers t commands).1 (answers t commands).2.holdings := by
  induction commands with
  | nil => exact fun t ht => ⟨ht, .nil⟩
  | cons c cs ih =>
    intro t ht
    have h := run_rowAnswered ht (hc c List.mem_cons_self)
    obtain ⟨hs, he⟩ := ih (fun c hm => hc c (List.mem_cons_of_mem _ hm)) _ h.sound
    exact ⟨hs, .cons h.effect he⟩

/-- What is true of the slots of a table all along. -/
structure Kept (t : SlotTable n) : Prop where
  size_le : t.size ≤ n
  length : t.holdings.length = t.size
  distinct : Distinct t.holdings
  positive : ∀ h ∈ t.holdings, 1 ≤ h.depth
  vacant : ∀ i, t.size ≤ i → i < n → t.slots[i]? = some Holding.vacant
  /-- A lock is looked for, and its depth changed, in a filled slot. -/
  position : ∀ lock i, t.position? lock = some i →
    i < t.size ∧ t.slots[i]?.map Holding.lock = some lock
  /-- A lock that leaves leaves a filled slot behind, the last one. -/
  vacate : ∀ lock i, t.position? lock = some i → 1 ≤ t.size ∧ t.size - 1 < n
  /-- A lock that comes fills the first vacant slot. -/
  place : ∀ lock t' notice, t.place lock = .placed t' notice → t.size < n
  /-- Only what was recorded is found, the lock that vacant slots show included. -/
  unseen : ∀ lock, Row.Lacks t.holdings lock → t.find? lock = none ∧ t.increment lock = none ∧
    t.decrement lock = none ∧ t.remove lock = none
  /-- The last holding moves to the place of one that leaves, and all others keep theirs. -/
  removal : ∀ i h, t.holdings[i]? = some h → ∃ t', t.remove h.lock = some (h, t') ∧
    t'.holdings.length + 1 = t.holdings.length ∧ ∀ j < t'.holdings.length,
      t'.holdings[j]? = if j = i then t.holdings.getLast? else t.holdings[j]?
  /-- There is room just when a lock that is not recorded can be. -/
  room : ∀ lock, Row.Lacks t.holdings lock → (Directory.hasRoom t = true ↔
    (DirectoryCommand.run t (.insert lock)).1 = .inserted)

theorem Sound.slots_filled (ht : t.Sound) {i : Nat} (hi : i < t.size) :
    t.slots[i]? = t.holdings[i]? := by
  rw [← Vector.getElem?_toList, ht.slots_eq,
    List.getElem?_append_left (by rwa [ht.length_holdings])]

theorem Sound.slots_vacant (ht : t.Sound) {i : Nat} (hi : t.size ≤ i) (hn : i < n) :
    t.slots[i]? = some Holding.vacant := by
  rw [← Vector.getElem?_toList, ht.slots_eq,
    List.getElem?_append_right (by rwa [ht.length_holdings]), ht.length_holdings,
    List.getElem?_replicate, if_pos (by omega)]

theorem Sound.position (ht : t.Sound) {i : Nat} (h : t.position? lock = some i) :
    i < t.size ∧ t.slots[i]?.map Holding.lock = some lock := by
  obtain ⟨hi, hl, -⟩ := List.findIdx?_eq_some_iff_getElem.mp h
  have hlt : i < t.size := by rwa [ht.length_holdings] at hi
  have hlock : t.holdings[i].lock = lock := by simpa using hl
  refine ⟨hlt, ?_⟩
  rw [ht.slots_filled hlt, List.getElem?_eq_getElem hi, Option.map_some, hlock]

theorem Sound.insert_inserted_iff (ht : t.Sound) (hm : Row.Lacks t.holdings lock) :
    (DirectoryCommand.run t (.insert lock)).1 = .inserted ↔ t.size < n := by
  have hlen := ht.length_holdings
  rw [← hlen]
  exact (insert_row ht lock).effect.inserted_iff hm

theorem Sound.position?_getElem? (ht : t.Sound) {i : Nat} (h : t.holdings[i]? = some x) :
    ∃ l₁ l₂, t.holdings = l₁ ++ x :: l₂ ∧ l₁.length = i ∧ t.position? x.lock = some i := by
  obtain ⟨hi, hx⟩ := List.getElem?_eq_some_iff.mp h
  have hh : t.holdings = t.holdings.take i ++ x :: t.holdings.drop (i + 1) := by
    rw [← hx, List.getElem_cons_drop, List.take_append_drop]
  have hlen : (t.holdings.take i).length = i := List.length_take_of_le (Nat.le_of_lt hi)
  generalize t.holdings.take i = l₁ at hh hlen
  generalize t.holdings.drop (i + 1) = l₂ at hh
  have hd := ht.distinct
  rw [hh] at hd
  have hne : ∀ a ∈ l₁, a.lock ≠ x.lock := fun a ha =>
    (Distinct.cons.mp (hd.perm List.perm_middle)).1 a (List.mem_append_left _ ha)
  exact ⟨l₁, l₂, hh, hlen, hlen ▸ position?_split hh hne⟩

theorem Sound.removal (ht : t.Sound) {i : Nat} (h : t.holdings[i]? = some x) :
    ∃ t', t.remove x.lock = some (x, t') ∧ Row.Vacated t.holdings i x t'.holdings := by
  obtain ⟨l₁, l₂, hh, rfl, hp⟩ := ht.position?_getElem? h
  refine ⟨t.vacate l₁.length, ?_, vacated ht hh⟩
  rw [remove, hp, Option.map_some, slot_split ht hh]

theorem Sound.kept (ht : t.Sound) : t.Kept where
  size_le := ht.size_le
  length := ht.length_holdings
  distinct := ht.distinct
  positive := ht.positive
  vacant _ := ht.slots_vacant
  position _ _ := ht.position
  vacate lock i h := by
    have hi := (ht.position h).1
    have hn := ht.size_le
    omega
  place lock t' notice h := by
    rcases Nat.lt_or_eq_of_le ht.size_le with hlt | hfull
    · exact hlt
    · rw [SlotTable.place, if_pos hfull] at h
      cases h
  unseen lock hlacks := by
    have hnone := position?_none (lacks_iff.mp hlacks)
    refine ⟨List.find?_eq_none.mpr fun h hmem => by simpa using hlacks h hmem, ?_, ?_, ?_⟩
    · rw [increment, hnone]; rfl
    · rw [decrement, hnone]; rfl
    · rw [remove, hnone]; rfl
  removal i x h := by
    obtain ⟨t', hremove, hv⟩ := ht.removal h
    obtain ⟨hlen, hplaces⟩ := hv.getElem?
    exact ⟨t', hremove, hlen, hplaces⟩
  room lock hlacks := by
    rw [ht.insert_inserted_iff hlacks]
    exact decide_eq_true_iff

/-- **A slot table is a row**, whatever its number of slots. After any commands about locks and room
its holdings stand at the front, distinct and entered at least once, every slot behind them is
vacant and is not found, no slot beyond the last was read or written, and every answer so far was
that of the row. -/
theorem answers_as_row (n : Nat) (commands : List DirectoryCommand)
    (hc : ∀ c ∈ commands, c.isPlain = true) :
    let t := (answers (empty n) commands).2
    t.Kept ∧ Row.Effects n [] commands (answers (empty n) commands).1 t.holdings := by
  intro t
  obtain ⟨hempty, hnone⟩ := sound_empty n
  obtain ⟨ht, he⟩ := answers_row commands hc (empty n) hempty
  rw [hnone] at he
  exact ⟨ht.kept, he⟩

/-- The lock that vacant slots show is asked for before it is recorded and after; the table is full
when it comes again; the first of three leaves, and the last takes its place. -/
theorem answers_as_row_vacant_lock :
    let commands : List DirectoryCommand :=
      [.remove ⟨0⟩, .insert ⟨0⟩, .insert ⟨1⟩, .insert ⟨2⟩, .insert ⟨0⟩, .increment ⟨2⟩, .hasRoom,
        .decrement ⟨0⟩, .lookup ⟨0⟩]
    let r := answers (empty 3) commands
    (∀ c ∈ commands, c.isPlain = true) ∧ r.2.Kept ∧ Row.Effects 3 [] commands r.1 r.2.holdings ∧
      r.2.holdings = [⟨⟨2⟩, 2⟩, ⟨⟨1⟩, 1⟩] := by
  intro commands r
  have hplain : ∀ c ∈ commands, c.isPlain = true := by decide
  obtain ⟨hkept, heffects⟩ := answers_as_row 3 commands hplain
  exact ⟨hplain, hkept, heffects, by decide⟩

end SlotTable

end LockElision
