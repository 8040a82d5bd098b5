import LockElision.Directory.Command
import LockElision.Proofs.Directory.Pooled
import LockElision.Proofs.Directory.Slots

/-!
# Directories answer like finite maps

`Ledger.Effect` lists what a finite map of some capacity answers to each basic command, and the map
after it. A lawful directory gives exactly these answers (`run_effect`), one command after another
(`answers_effects`), however its records collide or move about. Any other command leaves it sound as
well (`DirectoryCommand.run_sound`).
-/

namespace LockElision

open Directory

/-- The commands that ask for nothing but the map: one lock or all of them, no ranges, no nodes. -/
def DirectoryCommand.isBasic : DirectoryCommand → Bool
  | insert _ | increment _ | decrement _ | remove _ | lookup _ | contains _ => true
  | clear | records | size => true
  | _ => false

/-- The lock a command is about. -/
def DirectoryCommand.lock? : DirectoryCommand → Option LockId
  | insert lock | increment lock | decrement lock | remove lock => some lock
  | lookup lock | contains lock | origin lock => some lock
  | _ => none

/-- What a finite map of the given capacity answers to a command, and the map after it. -/
inductive Ledger.Effect (capacity : Option Nat) (m : Ledger) :
    DirectoryCommand → DirectoryReply → Ledger → Prop where
  | insert {lock : LockId} : lock ∉ m → m.hasRoom capacity = true →
      Effect capacity m (.insert lock) .inserted (m.insert lock 1)
  | insertFull {lock : LockId} {n : Nat} : lock ∉ m → capacity = some n → n ≤ m.size →
      Effect capacity m (.insert lock) (.full n) m
  | insertTwice {lock : LockId} : lock ∈ m →
      Effect capacity m (.insert lock) (.recordedTwice lock) m
  | increment {lock : LockId} {n : Nat} : m.lookup lock = some n →
      Effect capacity m (.increment lock) (.count (some (n + 1))) (m.insert lock (n + 1))
  | incrementMissing {lock : LockId} : lock ∉ m →
      Effect capacity m (.increment lock) (.count none) m
  | decrement {lock : LockId} {n : Nat} : m.lookup lock = some n → 1 < n →
      Effect capacity m (.decrement lock) (.count (some (n - 1))) (m.insert lock (n - 1))
  | decrementLast {lock : LockId} : m.lookup lock = some 1 →
      Effect capacity m (.decrement lock) (.count (some 0)) (m.erase lock)
  | decrementMissing {lock : LockId} : lock ∉ m →
      Effect capacity m (.decrement lock) (.count none) m
  | remove {lock : LockId} {n : Nat} : m.lookup lock = some n →
      Effect capacity m (.remove lock) (.holding (some ⟨lock, n⟩)) (m.erase lock)
  | removeMissing {lock : LockId} : lock ∉ m →
      Effect capacity m (.remove lock) (.holding none) m
  | lookup {lock : LockId} :
      Effect capacity m (.lookup lock) (.holding ((m.lookup lock).map (Holding.mk lock))) m
  | contains {lock : LockId} :
      Effect capacity m (.contains lock) (.flag (m.lookup lock).isSome) m
  | clear : Effect capacity m .clear .done ∅
  | records {hs : List Holding} : ↑(hs.map Holding.entry) = m.entries →
      Effect capacity m .records (.holdings hs) m
  | size : Effect capacity m .size (.count (some m.size)) m

theorem Ledger.Effect.lookup_ne {capacity : Option Nat} {m m' : Ledger} {c : DirectoryCommand}
    {r : DirectoryReply} {lock other : LockId} (h : m.Effect capacity c r m')
    (hc : c.lock? = some lock) (hne : other ≠ lock) : m'.lookup other = m.lookup other := by
  cases h with
  | insert | increment | decrement =>
    cases hc; exact Finmap.lookup_insert_of_ne _ hne
  | decrementLast | remove => cases hc; exact Finmap.lookup_erase_ne hne
  | clear => cases hc
  | _ => rfl

/-- The answers of a finite map to a list of commands. -/
inductive Ledger.Effects (capacity : Option Nat) :
    Ledger → List DirectoryCommand → List DirectoryReply → Ledger → Prop where
  | nil {m : Ledger} : Effects capacity m [] [] m
  | cons {m m' m'' : Ledger} {c : DirectoryCommand} {r : DirectoryReply}
      {cs : List DirectoryCommand} {rs : List DirectoryReply} :
      m.Effect capacity c r m' → Effects capacity m' cs rs m'' →
      Effects capacity m (c :: cs) (r :: rs) m''

/-- The answers of a directory to a list of commands, and the directory after them. -/
def Directory.answers {D : Type} [Inspectable D] (d : D) :
    List DirectoryCommand → List DirectoryReply × D
  | [] => ([], d)
  | c :: cs =>
    let (reply, d', _) := c.run d
    let (replies, d'') := answers d' cs
    (reply :: replies, d'')

open LawfulDirectory

variable {D : Type} [Inspectable D] [LawfulDirectory D] {d : D} {lock : LockId}

/-- The command is answered as the ledger says, and leaves the directory sound. -/
structure Answered (d : D) (c : DirectoryCommand) : Prop where
  sound : Sound (c.run d).2.1
  capacity : Directory.capacity (c.run d).2.1 = Directory.capacity d
  effect : (ledger d).Effect (Directory.capacity d) c (c.run d).1 (ledger (c.run d).2.1)

theorem answered_same (hd : Sound d) {c : DirectoryCommand} {r : DirectoryReply}
    {notices : List Exhaustion} (he : c.run d = (r, d, notices))
    (h : (ledger d).Effect (capacity d) c r (ledger d)) : Answered d c := by
  constructor <;> rw [he]
  exacts [hd, h]

theorem answered_changed {c : DirectoryCommand} {r : DirectoryReply} {d' : D} {m : Ledger}
    {notices : List Exhaustion} (he : c.run d = (r, d', notices)) (hb : Becomes Sound d d' m)
    (h : (ledger d).Effect (capacity d) c r m) : Answered d c := by
  constructor <;> rw [he]
  exacts [hb.sound, hb.capacity, hb.ledger.symm ▸ h]

theorem run_insert_twice (hd : Sound d) (hm : lock ∈ ledger d) :
    DirectoryCommand.run d (.insert lock) = (.recordedTwice lock, d, []) := by
  have hc := contains_eq hd lock
  rw [Finmap.lookup_isSome.mpr hm] at hc
  simp [DirectoryCommand.run, Directory.insert, hc]

theorem answered_insert (hd : Sound d) (lock : LockId) : Answered d (.insert lock) := by
  by_cases hm : lock ∈ ledger d
  · exact answered_same hd (run_insert_twice hd hm) (.insertTwice hm)
  · have hc := contains_eq hd lock
    rw [Finmap.lookup_eq_none.mpr hm] at hc
    have hroom := hasRoom_ledger hd
    cases hr : hasRoom d with
    | true =>
      obtain ⟨d', notice, hp, hb⟩ := place_of_room hd hm hr
      exact answered_changed (by simp [DirectoryCommand.run, Directory.insert, hc, hp]; rfl) hb
        (.insert hm (hroom.symm.trans hr))
    | false =>
      obtain ⟨n, hn, hp⟩ := place_of_full hd hr lock
      rw [hr, hn] at hroom
      exact answered_same hd (by simp [DirectoryCommand.run, Directory.insert, hc, hp]; rfl)
        (.insertFull hm hn (by simpa [Ledger.hasRoom] using hroom.symm))

theorem answered_increment (hd : Sound d) (lock : LockId) : Answered d (.increment lock) := by
  cases hl : (ledger d).lookup lock with
  | none =>
    have hm := Finmap.lookup_eq_none.mp hl
    exact answered_same hd (by rw [DirectoryCommand.run, increment_of_absent hd hm]; rfl)
      (.incrementMissing hm)
  | some n =>
    obtain ⟨d', he, hb⟩ := increment_of_held hd hl
    exact answered_changed (by rw [DirectoryCommand.run, he]; rfl) hb (.increment hl)

theorem answered_decrement (hd : Sound d) (lock : LockId) : Answered d (.decrement lock) := by
  cases hl : (ledger d).lookup lock with
  | none =>
    have hm := Finmap.lookup_eq_none.mp hl
    exact answered_same hd (by rw [DirectoryCommand.run, decrement_of_absent hd hm]; rfl)
      (.decrementMissing hm)
  | some n =>
    by_cases hn : 1 < n
    · obtain ⟨d', he, hb⟩ := decrement_of_nested hd hl hn
      exact answered_changed (by rw [DirectoryCommand.run, he]; rfl) hb (.decrement hl hn)
    · obtain rfl : n = 1 := by have := depth_pos hd hl; omega
      obtain ⟨d', he, hb⟩ := decrement_of_last hd hl
      exact answered_changed (by rw [DirectoryCommand.run, he]; rfl) hb (.decrementLast hl)

theorem answered_remove (hd : Sound d) (lock : LockId) : Answered d (.remove lock) := by
  cases hl : (ledger d).lookup lock with
  | none =>
    have hm := Finmap.lookup_eq_none.mp hl
    exact answered_same hd (by rw [DirectoryCommand.run, remove_of_absent hd hm])
      (.removeMissing hm)
  | some n =>
    obtain ⟨d', he, hb⟩ := remove_of_held hd hl
    exact answered_changed (by rw [DirectoryCommand.run, he]) hb (.remove hl)

theorem answered_records (hd : Sound d) (hl : (Inspectable.listing d).Perm (holdings d)) :
    Answered d .records := by
  refine answered_same hd rfl (.records ?_)
  rw [entries_ledger hd]
  exact Multiset.coe_eq_coe.mpr (hl.map _)

/-- **One command.** A lawful directory answers every basic command as a finite map does. -/
theorem run_effect (hd : Sound d) (hl : (Inspectable.listing d).Perm (holdings d))
    {c : DirectoryCommand} (hc : c.isBasic = true) : Answered d c := by
  cases c with
  | insert lock => exact answered_insert hd lock
  | increment lock => exact answered_increment hd lock
  | decrement lock => exact answered_decrement hd lock
  | remove lock => exact answered_remove hd lock
  | lookup lock => exact answered_same hd rfl (find?_eq_map hd lock ▸ .lookup)
  | contains lock => exact answered_same hd rfl (contains_eq hd lock ▸ .contains)
  | clear => exact answered_changed rfl (clear_law hd) .clear
  | records => exact answered_records hd hl
  | size => exact answered_same hd rfl (size_ledger hd ▸ .size)
  | _ => cases hc

/-! ## Ranges -/

theorem insertAll_sound (locks : List LockId) : ∀ (d : D) (inserted : Nat), Sound d →
    Sound (insertAll d inserted locks).2.1 := by
  induction locks with
  | nil => exact fun d inserted hd => hd
  | cons lock locks ih =>
    intro d inserted hd
    have hone := (answered_insert hd lock).sound
    simp only [DirectoryCommand.run] at hone
    unfold insertAll
    cases hi : Directory.insert d lock with
    | recordedTwice => exact hd
    | full n => exact hd
    | placed d' notice =>
      rw [hi] at hone
      exact ih d' (inserted + 1) hone

theorem sweep_sound {f : D → LockId → Option (Nat × D)}
    (hf : ∀ d lock n d', Sound d → f d lock = some (n, d') → Sound d') (locks : List LockId)
    (hd : Sound d) : Sound (sweep f d locks).2 := by
  unfold sweep
  refine List.foldlRecOn (motive := fun acc : Nat × Nat × Nat × D => Sound acc.2.2.2) locks _ hd ?_
  rintro ⟨found, missing, sum, d⟩ hd lock -
  simp only
  cases hr : f d lock with
  | none => exact hd
  | some r => exact hf d lock r.1 r.2 hd hr

/-- **Any command**, on a range of locks or on one, leaves a sound directory. -/
theorem DirectoryCommand.run_sound (hd : Sound d) (c : DirectoryCommand) : Sound (c.run d).2.1 := by
  have hincrement : ∀ (d : D) lock n d', Sound d → Directory.increment d lock = some (n, d') →
      Sound d' := by
    intro d lock n d' hd hi
    have h := (answered_increment hd lock).sound
    rwa [DirectoryCommand.run, hi] at h
  have hdecrement : ∀ (d : D) lock n d', Sound d → Directory.decrement d lock = some (n, d') →
      Sound d' := by
    intro d lock n d' hd hi
    have h := (answered_decrement hd lock).sound
    rwa [DirectoryCommand.run, hi] at h
  have hremove : ∀ (d : D) lock n d', Sound d →
      ((Directory.remove d lock).map fun r => (r.1.depth, r.2)) = some (n, d') → Sound d' := by
    intro d lock n d' hd hr
    obtain ⟨⟨held, d''⟩, hi, he⟩ := Option.map_eq_some_iff.mp hr
    obtain ⟨-, rfl⟩ := Prod.mk.inj he
    have h := (answered_remove hd lock).sound
    rwa [DirectoryCommand.run, hi] at h
  cases c with
  | insert lock => exact (answered_insert hd lock).sound
  | increment lock => exact (answered_increment hd lock).sound
  | decrement lock => exact (answered_decrement hd lock).sound
  | remove lock => exact (answered_remove hd lock).sound
  | clear => exact (clear_law hd).sound
  | insertRange r => exact insertAll_sound r.locks d 0 hd
  | incrementRange r => exact sweep_sound hincrement r.locks hd
  | decrementRange r => exact sweep_sound hdecrement r.locks hd
  | removeRange r => exact sweep_sound hremove r.locks hd
  | lookup | contains | origin | isEmpty | hasRoom | records | size | capacity | inspect | usage
  | bucketCount => exact hd

/-! ## Runs -/

/-- **A run of commands.** The answers are those of a finite map of the same capacity. -/
theorem answers_effects (hl : ∀ d : D, (Inspectable.listing d).Perm (holdings d))
    (commands : List DirectoryCommand) (hc : ∀ c ∈ commands, c.isBasic = true) :
    ∀ d : D, Sound d → Sound (answers d commands).2 ∧
      Ledger.Effects (capacity d) (ledger d) commands (answers d commands).1
        (ledger (answers d commands).2) := by
  induction commands with
  | nil => exact fun d hd => ⟨hd, .nil⟩
  | cons c cs ih =>
    intro d hd
    have h := run_effect hd (hl d) (hc c List.mem_cons_self)
    obtain ⟨hs, he⟩ := ih (fun c hm => hc c (List.mem_cons_of_mem _ hm)) _ h.sound
    rw [h.capacity] at he
    exact ⟨hs, .cons h.effect he⟩

end LockElision
