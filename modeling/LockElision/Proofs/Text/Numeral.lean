import LockElision.Text.Unsigned
import Mathlib.Data.List.Infix

/-!
# Numerals

A numeral is one or more decimal digits, perhaps after a plus sign, and stands for a number
(`Numeral`). Reading a text as a number below a limit succeeds on the numerals of the numbers below
it and on nothing else (`parse_ok_iff`). Of other texts it says what is wrong with the first
character that cannot be used. `Misread` puts that without reference to the reading, by the numerals
that a text begins with (`parse_error_iff`).
-/

namespace LockElision.Unsigned

/-- Decimal digits, at least one, and the number they stand for. -/
structure Digits (ds : List Char) (n : Nat) : Prop where
  some_digit : ds ≠ []
  only_digits : ∀ d ∈ ds, d.isDigit = true
  value : Nat.ofDigitChars 10 ds 0 = n

/-- Digits with a plus sign before them or without one. -/
def Numeral (cs : List Char) (n : Nat) : Prop := ∃ ds, (cs = ds ∨ cs = '+' :: ds) ∧ Digits ds n

/-- What is wrong with a text that is no numeral of a number below the limit. -/
inductive Misread (limit : Nat) (cs : List Char) : NumberFault → Prop where
  | empty : cs = [] → Misread limit cs .empty
  /-- The text begins with the numeral of a number that is too large. -/
  | tooLarge {front : List Char} {n : Nat} : front <+: cs → Numeral front n → limit ≤ n →
      Misread limit cs .tooLarge
  /-- The text is no numeral, and all the numerals it begins with are small enough. -/
  | invalidDigit : cs ≠ [] → (∀ n, ¬ Numeral cs n) →
      (∀ front n, front <+: cs → Numeral front n → n < limit) → Misread limit cs .invalidDigit

/-! ## Digits -/

section Digits

variable {n m limit : Nat} {ds front : List Char}

theorem le_ofDigitChars : ∀ (ds : List Char) (n : Nat), n ≤ Nat.ofDigitChars 10 ds n
  | [], n => Nat.le_refl n
  | d :: ds, n => by
    rw [Nat.ofDigitChars_cons]
    have h := le_ofDigitChars ds (10 * n + (d.toNat - '0'.toNat))
    omega

theorem ofDigitChars_front (h : front <+: ds) (n : Nat) :
    Nat.ofDigitChars 10 front n ≤ Nat.ofDigitChars 10 ds n := by
  obtain ⟨rest, rfl⟩ := h
  unfold Nat.ofDigitChars
  rw [List.foldl_append]
  exact le_ofDigitChars rest _

theorem Digits.unique (h : Digits ds n) (h' : Digits ds m) : n = m :=
  h.value.symm.trans h'.value

theorem Digits.front_le (h : Digits ds n) (h' : Digits front m) (hp : front <+: ds) : m ≤ n := by
  rw [← h.value, ← h'.value]
  exact ofDigitChars_front hp 0

/-- What reading digits on top of a number comes to. -/
inductive Reads (limit n : Nat) (cs : List Char) : Except NumberFault Nat → Prop where
  | whole : (∀ c ∈ cs, c.isDigit = true) → Nat.ofDigitChars 10 cs n < limit →
      Reads limit n cs (.ok (Nat.ofDigitChars 10 cs n))
  | overflow {front : List Char} : front <+: cs → front ≠ [] → (∀ c ∈ front, c.isDigit = true) →
      limit ≤ Nat.ofDigitChars 10 front n → Reads limit n cs (.error .tooLarge)
  | stop {c : Char} : c ∈ cs → c.isDigit = false →
      (∀ front, front <+: cs → (∀ c ∈ front, c.isDigit = true) →
        Nat.ofDigitChars 10 front n < limit) → Reads limit n cs (.error .invalidDigit)

theorem Reads.cons {c : Char} {cs : List Char} {result : Except NumberFault Nat}
    (h : Reads limit (10 * n + (c.toNat - '0'.toNat)) cs result) (hc : c.isDigit = true)
    (hn : n < limit) : Reads limit n (c :: cs) result := by
  cases h with
  | whole hdigits hvalue => exact .whole (by simpa using ⟨hc, hdigits⟩) hvalue
  | overflow hfront _ hdigits hvalue =>
    refine .overflow (List.prefix_cons_inj c |>.mpr hfront) (by simp) ?_ hvalue
    simpa using ⟨hc, hdigits⟩
  | stop hmem hno hfronts =>
    refine .stop (List.mem_cons_of_mem c hmem) hno fun front hfront hdigits => ?_
    rcases List.prefix_cons_iff.mp hfront with rfl | ⟨rest, rfl, hrest⟩
    · exact hn
    · exact hfronts rest hrest fun d hd => hdigits d (List.mem_cons_of_mem c hd)

/-- Reading goes on while the number stays below the limit, so by induction on the text it finds
the first digit that carries it past, or else the first character that is none. -/
theorem reads_digits (cs : List Char) : ∀ n, n < limit →
    Reads limit n cs (digits limit n cs) := by
  induction cs with
  | nil => exact fun n hn => .whole (by simp) hn
  | cons c cs ih =>
    intro n hn
    unfold digits
    split
    case isFalse hc =>
      refine .stop List.mem_cons_self (by simpa using hc) fun front hfront hdigits => ?_
      rcases List.prefix_cons_iff.mp hfront with rfl | ⟨rest, rfl, -⟩
      · exact hn
      · exact absurd (hdigits c List.mem_cons_self) hc
    case isTrue hc =>
      rw [Nat.mul_comm n 10]
      simp only
      split
      case isFalse hlarge =>
        have hfront : [c] <+: c :: cs := List.prefix_append [c] cs
        exact .overflow hfront (by simp) (by simpa using hc) (Nat.le_of_not_lt hlarge)
      case isTrue hsmall => exact (ih _ hsmall).cons hc hn

end Digits

/-! ## Signs -/

/-- A text without the plus sign it may begin with. -/
def withoutPlus : List Char → List Char
  | '+' :: cs => cs
  | cs => cs

section Signs

variable {n m limit : Nat} {cs front : List Char} {fault : NumberFault}

theorem withoutPlus_of_ne (h : ∀ rest, cs ≠ '+' :: rest) : withoutPlus cs = cs := by
  unfold withoutPlus
  split
  · exact absurd rfl (h _)
  · rfl

/-- The plus sign is no digit, so a text is a numeral in one way at most. -/
theorem numeral_iff : Numeral cs n ↔ Digits (withoutPlus cs) n := by
  constructor
  · rintro ⟨ds, rfl | rfl, hds⟩
    · rw [withoutPlus_of_ne]
      · exact hds
      · rintro rest rfl
        exact absurd (hds.only_digits '+' List.mem_cons_self) (by decide)
    · exact hds
  · intro h
    by_cases hplus : ∃ rest, cs = '+' :: rest
    · obtain ⟨rest, rfl⟩ := hplus
      exact ⟨rest, .inr rfl, h⟩
    · rw [withoutPlus_of_ne fun rest he => hplus ⟨rest, he⟩] at h
      exact ⟨cs, .inl rfl, h⟩

theorem withoutPlus_front (h : front <+: cs) (hne : front ≠ []) :
    withoutPlus front <+: withoutPlus cs := by
  obtain ⟨rest, rfl⟩ := h
  cases front with
  | nil => exact absurd rfl hne
  | cons c front =>
    by_cases hc : c = '+'
    · subst hc
      exact List.prefix_append front rest
    · have hplain : ∀ tail, withoutPlus (c :: tail) = c :: tail := fun tail =>
        withoutPlus_of_ne fun rest he => hc (List.cons.inj he).1
      rw [List.cons_append, hplain, hplain]
      exact List.prefix_append (c :: front) rest

theorem exists_front (h : front <+: withoutPlus cs) :
    ∃ signed, signed <+: cs ∧ withoutPlus signed = front := by
  by_cases hplus : ∃ rest, cs = '+' :: rest
  · obtain ⟨rest, rfl⟩ := hplus
    exact ⟨'+' :: front, (List.prefix_cons_inj '+').mpr h, rfl⟩
  · rw [withoutPlus_of_ne fun rest he => hplus ⟨rest, he⟩] at h
    refine ⟨front, h, withoutPlus_of_ne ?_⟩
    rintro rest rfl
    obtain ⟨tail, rfl⟩ := h
    exact hplus ⟨rest ++ tail, rfl⟩

theorem Numeral.unique (h : Numeral cs n) (h' : Numeral cs m) : n = m :=
  (numeral_iff.mp h).unique (numeral_iff.mp h')

theorem Numeral.ne_nil (h : Numeral cs n) : cs ≠ [] := by
  rintro rfl
  exact (numeral_iff.mp h).some_digit rfl

theorem Numeral.front_le (h : Numeral cs n) (h' : Numeral front m) (hp : front <+: cs) : m ≤ n :=
  (numeral_iff.mp h).front_le (numeral_iff.mp h') (withoutPlus_front hp h'.ne_nil)

theorem Misread.not_numeral (h : Misread limit cs fault) : ∀ n, Numeral cs n → limit ≤ n := by
  intro n hn
  cases h with
  | empty he => exact absurd he hn.ne_nil
  | tooLarge hfront hm hle => exact hle.trans (hn.front_le hm hfront)
  | invalidDigit _ hno _ => exact absurd hn (hno n)

theorem Misread.unique {fault' : NumberFault} (h : Misread limit cs fault)
    (h' : Misread limit cs fault') : fault = fault' := by
  have hnil : ∀ {front n}, front <+: [] → ¬ Numeral front n := fun hp hn =>
    hn.ne_nil (List.prefix_nil.mp hp)
  cases h with
  | empty he =>
    subst he
    cases h' with
    | empty => rfl
    | tooLarge hfront hn _ => exact absurd hn (hnil hfront)
    | invalidDigit hne => exact absurd rfl hne
  | tooLarge hfront hn hle =>
    cases h' with
    | empty he => exact absurd hn (hnil (he ▸ hfront))
    | tooLarge => rfl
    | invalidDigit _ _ hsmall => exact absurd (hsmall _ _ hfront hn) (Nat.not_lt.mpr hle)
  | invalidDigit hne _ hsmall =>
    cases h' with
    | empty he => exact absurd he hne
    | tooLarge hfront hn hle => exact absurd (hsmall _ _ hfront hn) (Nat.not_lt.mpr hle)
    | invalidDigit => rfl

end Signs

/-! ## Reading -/

variable {limit n : Nat} {cs : List Char} {fault : NumberFault}

theorem parse_eq (hne : cs ≠ []) : parse limit cs =
    if withoutPlus cs = [] then .error .invalidDigit else digits limit 0 (withoutPlus cs) := by
  unfold parse
  split
  · exact absurd rfl hne
  · rfl
  · rename_i rest hrest
    exact (if_neg hrest).symm
  · rename_i rest hrest hplus
    rw [withoutPlus_of_ne fun tail he => hplus tail he, if_neg hne]

theorem parse_cases (hlimit : 0 < limit) (cs : List Char) :
    (∃ n, parse limit cs = .ok n ∧ Numeral cs n ∧ n < limit) ∨
    ∃ fault, parse limit cs = .error fault ∧ Misread limit cs fault := by
  by_cases hne : cs = []
  · subst hne
    exact .inr ⟨_, rfl, .empty rfl⟩
  · rw [parse_eq hne]
    by_cases hsign : withoutPlus cs = []
    · rw [if_pos hsign]
      refine .inr ⟨_, rfl, .invalidDigit hne (fun n hn => ?_) fun front n hfront hn => ?_⟩
      · exact (numeral_iff.mp hn).some_digit hsign
      · have hprefix := withoutPlus_front hfront hn.ne_nil
        rw [hsign] at hprefix
        exact absurd (List.prefix_nil.mp hprefix) (numeral_iff.mp hn).some_digit
    · rw [if_neg hsign]
      have hread := reads_digits (withoutPlus cs) 0 hlimit
      generalize digits limit 0 (withoutPlus cs) = result at hread
      cases hread with
      | whole hdigits hvalue =>
        exact .inl ⟨_, rfl, numeral_iff.mpr ⟨hsign, hdigits, rfl⟩, hvalue⟩
      | overflow hfront hsome hdigits hvalue =>
        obtain ⟨signed, hsigned, rfl⟩ := exists_front hfront
        exact .inr ⟨_, rfl, .tooLarge hsigned (numeral_iff.mpr ⟨hsome, hdigits, rfl⟩) hvalue⟩
      | stop hmem hno hsmall =>
        refine .inr ⟨_, rfl, .invalidDigit hne (fun n hn => ?_) fun front n hfront hn => ?_⟩
        · rw [(numeral_iff.mp hn).only_digits _ hmem] at hno
          cases hno
        · rw [← (numeral_iff.mp hn).value]
          exact hsmall _ (withoutPlus_front hfront hn.ne_nil) (numeral_iff.mp hn).only_digits

/-- **What is read:** the numerals of the numbers below the limit. -/
theorem parse_ok_iff (hlimit : 0 < limit) : parse limit cs = .ok n ↔ Numeral cs n ∧ n < limit := by
  rcases parse_cases hlimit cs with ⟨m, hok, hm, hlt⟩ | ⟨fault, herror, hmisread⟩
  · rw [hok]
    exact ⟨fun h => Except.ok.inj h ▸ ⟨hm, hlt⟩, fun ⟨hn, _⟩ => congrArg _ (hm.unique hn)⟩
  · rw [herror]
    refine ⟨nofun, fun ⟨hn, hlt⟩ => ?_⟩
    exact absurd (hmisread.not_numeral n hn) (Nat.not_le.mpr hlt)

/-- **What is refused**, and for what. -/
theorem parse_error_iff (hlimit : 0 < limit) :
    parse limit cs = .error fault ↔ Misread limit cs fault := by
  rcases parse_cases hlimit cs with ⟨n, hok, hn, hlt⟩ | ⟨fault', herror, hmisread⟩
  · rw [hok]
    exact ⟨nofun, fun h => absurd (h.not_numeral n hn) (Nat.not_le.mpr hlt)⟩
  · rw [herror]
    exact ⟨fun h => Except.error.inj h ▸ hmisread, fun h => congrArg _ (hmisread.unique h)⟩

end LockElision.Unsigned
