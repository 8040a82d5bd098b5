import LockElision.Text.Blank
import Mathlib.Data.List.Forall2
import Mathlib.Data.List.TakeWhile

/-!
# White space and the case of letters

`Trimmed cs core` says without a computation that `core` is `cs` without the white space at its
ends, and `SameLetters a b` that two texts differ in the case of ASCII letters at most. What
`trimBlank` leaves is trimmed (`trimBlank_eq_iff`), and comparing in lower case finds just the texts
that are the same up to case (`sameLetters_iff`).
-/

namespace LockElision

/-! ## White space -/

/-- White space, then the core, then white space; and the core neither begins nor ends with any. -/
structure Trimmed (cs core : List Char) : Prop where
  ends : ∃ left right, cs = left ++ core ++ right ∧ (∀ c ∈ left, isBlank c = true) ∧
    ∀ c ∈ right, isBlank c = true
  first : ∀ c ∈ core.head?, isBlank c = false
  last : ∀ c ∈ core.getLast?, isBlank c = false

theorem head?_dropWhile (cs : List Char) :
    ∀ c ∈ (cs.dropWhile isBlank).head?, isBlank c = false := by
  intro c hc
  have h := List.head?_dropWhile_not isBlank cs
  rw [Option.mem_def.mp hc] at h
  exact h

theorem dropWhile_of_head? {cs : List Char} (h : ∀ c ∈ cs.head?, isBlank c = false) :
    cs.dropWhile isBlank = cs := by
  cases cs with
  | nil => rfl
  | cons c cs => exact List.dropWhile_cons_of_neg (by simpa using h c rfl)

theorem trimmed_trimBlank (cs : List Char) : Trimmed cs (trimBlank cs) := by
  obtain ⟨mid, hmid⟩ : ∃ mid, mid = cs.dropWhile isBlank := ⟨_, rfl⟩
  have hleft : cs = cs.takeWhile isBlank ++ mid := by
    rw [hmid, List.takeWhile_append_dropWhile]
  have hright : mid = trimBlank cs ++ (mid.reverse.takeWhile isBlank).reverse := by
    unfold trimBlank
    rw [← hmid, ← List.reverse_append, List.takeWhile_append_dropWhile, List.reverse_reverse]
  constructor
  · refine ⟨cs.takeWhile isBlank, (mid.reverse.takeWhile isBlank).reverse, ?_, ?_, ?_⟩
    · rw [List.append_assoc, ← hright]
      exact hleft
    · exact fun c hc => List.mem_takeWhile_imp hc
    · exact fun c hc => List.mem_takeWhile_imp (List.mem_reverse.mp hc)
  · intro c hc
    have hfirst := head?_dropWhile cs c
    rw [← hmid, hright] at hfirst
    exact hfirst (by rw [List.head?_append, Option.mem_def.mp hc]; rfl)
  · unfold trimBlank
    rw [List.getLast?_reverse]
    exact head?_dropWhile _

/-- **Trimming** finds the one trimmed core of a text. -/
theorem trimBlank_eq_iff {cs core : List Char} : trimBlank cs = core ↔ Trimmed cs core := by
  constructor
  · rintro rfl
    exact trimmed_trimBlank cs
  · rintro ⟨⟨left, right, rfl, hleft, hright⟩, hfirst, hlast⟩
    have hfront :
        (left ++ core ++ right).dropWhile isBlank = (core ++ right).dropWhile isBlank := by
      rw [List.append_assoc, List.dropWhile_append_of_pos hleft]
    have hback : (right.reverse ++ core.reverse).dropWhile isBlank = core.reverse := by
      rw [List.dropWhile_append_of_pos fun c hc => hright c (List.mem_reverse.mp hc)]
      exact dropWhile_of_head? (by rwa [List.head?_reverse])
    unfold trimBlank
    rw [hfront]
    cases core with
    | nil =>
      rw [List.nil_append, List.dropWhile_eq_nil_iff.mpr hright]
      rfl
    | cons c core =>
      have hkept : (c :: core ++ right).dropWhile isBlank = c :: core ++ right :=
        dropWhile_of_head? hfirst
      rw [hkept, List.reverse_append, hback, List.reverse_reverse]

/-! ## Case -/

/-- A capital letter of ASCII and its small letter. -/
def IsCapitalOf (capital small : Char) : Prop :=
  capital.isUpper = true ∧ small.toNat = capital.toNat + 32

/-- One character, or the two cases of one letter. -/
def SameLetter (a b : Char) : Prop := a = b ∨ IsCapitalOf a b ∨ IsCapitalOf b a

/-- The same text but for the case of letters. -/
def SameLetters (a b : String) : Prop := List.Forall₂ SameLetter a.toList b.toList

theorem isUpper_iff {c : Char} : c.isUpper = true ↔ 65 ≤ c.toNat ∧ c.toNat ≤ 90 := by
  have hdef : c.isUpper = decide ('A'.val ≤ c.val ∧ c.val ≤ 'Z'.val) := rfl
  simp [hdef, UInt32.le_iff_toNat_le, ← Char.toNat_val]

theorem toNat_toLower (c : Char) :
    c.toLower.toNat = if c.isUpper = true then c.toNat + 32 else c.toNat := by
  by_cases hc : c.isUpper = true
  · rw [if_pos hc]
    have hrange := isUpper_iff.mp hc
    have hval : c.toLower.val = c.val + 32 := by
      unfold Char.toLower
      rw [dif_pos (of_decide_eq_true hc)]
      rfl
    rw [← Char.toNat_val, hval, UInt32.toNat_add, Char.toNat_val]
    exact Nat.mod_eq_of_lt (by simp; omega)
  · rw [if_neg hc]
    unfold Char.toLower
    rw [dif_neg fun h => hc (decide_eq_true h)]

theorem sameLetter_iff {a b : Char} : SameLetter a b ↔ a.toLower = b.toLower := by
  have ha := toNat_toLower a
  have hb := toNat_toLower b
  have hsame : a.toLower = b.toLower ↔ a.toLower.toNat = b.toLower.toNat := Char.toNat_inj.symm
  have heq : a = b ↔ a.toNat = b.toNat := Char.toNat_inj.symm
  unfold SameLetter IsCapitalOf
  rw [hsame, heq]
  simp only [isUpper_iff] at ha hb ⊢
  split at ha <;> split at hb <;> omega

theorem forall₂_sameLetter_iff {as bs : List Char} :
    List.Forall₂ SameLetter as bs ↔ as.map Char.toLower = bs.map Char.toLower := by
  have hsame : SameLetter = fun a b => a.toLower = b.toLower :=
    funext₂ fun a b => propext sameLetter_iff
  rw [← List.forall₂_eq_eq_eq, List.forall₂_map_left_iff, List.forall₂_map_right_iff, hsame]

/-- **Case** is what comparing in lower case does not see. -/
theorem sameLetters_iff {a b : String} :
    SameLetters a b ↔ a.map Char.toLower = b.map Char.toLower := by
  unfold SameLetters
  rw [forall₂_sameLetter_iff, ← String.toList_inj, String.toList_map, String.toList_map]

end LockElision
