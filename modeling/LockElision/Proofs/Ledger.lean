import LockElision.Lock
import Mathlib.Data.Finmap

/-!
# Ledgers

A ledger is what a directory remembers once its layout is forgotten: a finite map from the locks a
thread has to how deep it is in each. `Ledger.ofHoldings` reads one off a list of holdings. When no
lock is listed twice (`Distinct`), the ledger has exactly the listed holdings, in whatever order
they stand.
-/

namespace LockElision

abbrev Ledger := Finmap fun _ : LockId => Nat

/-- A holding as an entry of a ledger. -/
def Holding.entry (h : Holding) : (_ : LockId) × Nat := ⟨h.lock, h.depth⟩

/-- No lock is listed twice. -/
def Distinct (hs : List Holding) : Prop := (hs.map Holding.lock).Nodup

namespace Distinct

variable {hs hs' : List Holding} {h : Holding}

theorem cons : Distinct (h :: hs) ↔ (∀ h' ∈ hs, h'.lock ≠ h.lock) ∧ Distinct hs := by
  simp [Distinct]

theorem perm (hp : hs.Perm hs') (hd : Distinct hs) : Distinct hs' :=
  (hp.map Holding.lock).nodup_iff.mp hd

end Distinct

namespace Ledger

/-- How many locks a ledger has. -/
def size (m : Ledger) : Nat := m.keys.card

/-- Whether a ledger may take one lock more. -/
def hasRoom (capacity : Option Nat) (m : Ledger) : Bool :=
  match capacity with
  | some n => m.size < n
  | none => true

def ofHoldings (hs : List Holding) : Ledger := (hs.map Holding.entry).toFinmap

variable {hs hs' : List Holding} {lock : LockId} {n : Nat} {m : Ledger}

theorem ofHoldings_cons (h : Holding) (hs : List Holding) :
    ofHoldings (h :: hs) = (ofHoldings hs).insert h.lock h.depth :=
  Finmap.toFinmap_cons ..

theorem lookup_ofHoldings (hs : List Holding) (lock : LockId) :
    (ofHoldings hs).lookup lock = (hs.find? (·.lock == lock)).map Holding.depth := by
  induction hs with
  | nil => rfl
  | cons h hs ih =>
    rw [ofHoldings_cons]
    by_cases he : h.lock = lock
    · subst he; rw [Finmap.lookup_insert]; simp
    · rw [Finmap.lookup_insert_of_ne _ (Ne.symm he), ih, List.find?_cons_of_neg (by simpa using he)]

theorem split_of_lookup (h : (ofHoldings hs).lookup lock = some n) :
    ∃ l₁ l₂, hs = l₁ ++ ⟨lock, n⟩ :: l₂ ∧ ∀ a ∈ l₁, a.lock ≠ lock := by
  rw [lookup_ofHoldings, Option.map_eq_some_iff] at h
  obtain ⟨⟨lock', n'⟩, hf, rfl⟩ := h
  obtain ⟨hl, l₁, l₂, rfl, hne⟩ := List.find?_eq_some_iff_append.mp hf
  have hl : lock' = lock := by simpa using hl
  subst hl
  exact ⟨l₁, l₂, rfl, fun a ha => by simpa using hne a ha⟩

theorem mem_ofHoldings : lock ∈ ofHoldings hs ↔ ∃ h ∈ hs, h.lock = lock := by
  rw [← Finmap.lookup_isSome, lookup_ofHoldings]
  simp

theorem keys_ofHoldings (hs : List Holding) :
    (ofHoldings hs).keys = (hs.map Holding.lock).toFinset := by
  ext lock
  rw [Finmap.mem_keys, mem_ofHoldings]
  simp

theorem size_ofHoldings (hd : Distinct hs) : (ofHoldings hs).size = hs.length := by
  rw [size, keys_ofHoldings, List.toFinset_card_of_nodup hd, List.length_map]

theorem entries_ofHoldings (hd : Distinct hs) :
    (ofHoldings hs).entries = ↑(hs.map Holding.entry) := by
  induction hs with
  | nil => rfl
  | cons h hs ih =>
    obtain ⟨hne, hd⟩ := Distinct.cons.mp hd
    have hnot : h.lock ∉ ofHoldings hs := by
      rw [mem_ofHoldings]
      rintro ⟨h', hm, he⟩
      exact hne h' hm he
    rw [ofHoldings_cons, Finmap.entries_insert_of_notMem hnot, ih hd]
    rfl

theorem ofHoldings_perm (hp : hs.Perm hs') (hd : Distinct hs) : ofHoldings hs = ofHoldings hs' := by
  apply Finmap.ext
  rw [entries_ofHoldings hd, entries_ofHoldings (hd.perm hp)]
  exact Multiset.coe_eq_coe.mpr (hp.map _)

theorem lookup_of_mem {h : Holding} (hd : Distinct hs) (hm : h ∈ hs) :
    (ofHoldings hs).lookup h.lock = some h.depth := by
  obtain ⟨l₁, l₂, rfl⟩ := List.mem_iff_append.mp hm
  rw [ofHoldings_perm List.perm_middle hd, ofHoldings_cons, Finmap.lookup_insert]

theorem ofHoldings_set {h : Holding} {l₁ l₂ : List Holding} (hd : Distinct (l₁ ++ h :: l₂))
    (n : Nat) :
    ofHoldings (l₁ ++ ⟨h.lock, n⟩ :: l₂) = (ofHoldings (l₁ ++ h :: l₂)).insert h.lock n := by
  have hd' : Distinct (l₁ ++ ⟨h.lock, n⟩ :: l₂) := by simpa [Distinct] using hd
  rw [ofHoldings_perm List.perm_middle hd', ofHoldings_perm List.perm_middle hd, ofHoldings_cons,
    ofHoldings_cons, Finmap.insert_insert]

theorem erase_ofHoldings {h : Holding} (hp : hs.Perm (h :: hs')) (hd : Distinct hs) :
    (ofHoldings hs).erase h.lock = ofHoldings hs' := by
  have hd' := hd.perm hp
  rw [ofHoldings_perm hp hd, ofHoldings_cons]
  apply Finmap.ext_lookup
  intro lock
  by_cases he : lock = h.lock
  · subst he
    rw [Finmap.lookup_erase, eq_comm, Finmap.lookup_eq_none, mem_ofHoldings]
    rintro ⟨h', hm, he⟩
    exact (Distinct.cons.mp hd').1 h' hm he
  · rw [Finmap.lookup_erase_ne he, Finmap.lookup_insert_of_ne _ he]

end Ledger

end LockElision
