import LockElision.Number.Reading

/-!
# JSON tokens

A JSON text as a list of tokens. A string that names half of a surrogate pair is kept as a token
without a text: whoever needs the text refuses it, whoever skips the string does not care.
-/

namespace LockElision.Json

inductive Token where
  | openObject
  | closeObject
  | openArray
  | closeArray
  | colon
  | comma
  | null
  | bool (b : Bool)
  | number (n : Numeral)
  | string (text : Option String)
  deriving DecidableEq, Repr

/-- A piece of a string: a character, or a 16-bit unit given by number. -/
inductive Piece where
  | char (c : Char)
  | unit (n : Nat)
  deriving DecidableEq, Repr

def hexValue? (c : Char) : Option Nat :=
  if c.isDigit then some (c.toNat - '0'.toNat)
  else if 'a' ≤ c ∧ c ≤ 'f' then some (c.toNat - 'a'.toNat + 10)
  else if 'A' ≤ c ∧ c ≤ 'F' then some (c.toNat - 'A'.toNat + 10)
  else none

def escape? : Char → Option Char
  | '"' => some '"'
  | '\\' => some '\\'
  | '/' => some '/'
  | 'b' => some '\x08'
  | 'f' => some '\x0c'
  | 'n' => some '\n'
  | 'r' => some '\r'
  | 't' => some '\t'
  | _ => none

/-- The pieces of a string up to its closing mark, and what follows the mark. Control characters
have to be escaped. -/
def pieces : List Char → Option (List Piece × List Char)
  | [] => none
  | '"' :: cs => some ([], cs)
  | '\\' :: 'u' :: a :: b :: c :: d :: cs => do
    let n :=
      (((← hexValue? a) * 16 + (← hexValue? b)) * 16 + (← hexValue? c)) * 16 + (← hexValue? d)
    let (ps, rest) ← pieces cs
    return (.unit n :: ps, rest)
  | '\\' :: e :: cs => do
    let c ← escape? e
    let (ps, rest) ← pieces cs
    return (.char c :: ps, rest)
  | c :: cs =>
    if c.toNat < 0x20 ∨ c = '\\' then none
    else do
      let (ps, rest) ← pieces cs
      return (.char c :: ps, rest)

/-- The text of a string; `none` if a unit is half of a pair without its other half. -/
def join : List Piece → Option (List Char)
  | [] => some []
  | .char c :: ps => (join ps).map (c :: ·)
  | .unit n :: ps =>
    if 0xD800 ≤ n ∧ n < 0xDC00 then
      match ps with
      | .unit m :: ps =>
        if 0xDC00 ≤ m ∧ m < 0xE000 then
          (join ps).map (Char.ofNat (0x10000 + (n - 0xD800) * 0x400 + (m - 0xDC00)) :: ·)
        else none
      | _ => none
    else if 0xDC00 ≤ n ∧ n < 0xE000 then none
    else (join ps).map (Char.ofNat n :: ·)

theorem length_of_pieces {cs rest : List Char} {ps : List Piece} (h : pieces cs = some (ps, rest)) :
    rest.length < cs.length := by
  fun_induction pieces cs generalizing ps rest with
  | case1 => simp at h
  | case2 cs => simp_all
  | case3 a b c d cs ih =>
    simp only [Option.bind_eq_bind, Option.bind_eq_some_iff] at h
    obtain ⟨_, _, _, _, _, _, _, _, ⟨ps', rest'⟩, hp, he⟩ := h
    have := ih hp
    simp_all
    omega
  | case4 e cs _ ih =>
    simp only [Option.bind_eq_bind, Option.bind_eq_some_iff] at h
    obtain ⟨_, _, ⟨ps', rest'⟩, hp, he⟩ := h
    have := ih hp
    simp_all
    omega
  | case5 => simp at h
  | case6 c cs _ _ _ _ ih =>
    simp only [Option.bind_eq_bind, Option.bind_eq_some_iff] at h
    obtain ⟨⟨ps', rest'⟩, hp, he⟩ := h
    have := ih hp
    simp_all
    omega

/-- The fraction of a numeral: absent, or a point and at least one digit. -/
def fraction? : List Char → Option (List Nat × List Char)
  | '.' :: cs =>
    match spanDigits cs with
    | ([], _) => none
    | (ds, rest) => some (ds, rest)
  | cs => some ([], cs)

/-- The power of ten of a numeral: absent, or a mark, perhaps a sign, and at least one digit. -/
def power? (cs : List Char) : Option (Option Int × List Char) :=
  match cs with
  | 'e' :: cs | 'E' :: cs =>
    let (down, cs) := spanSign cs
    match spanDigits cs with
    | ([], _) => none
    | (ds, rest) =>
      let n : Int := Numeral.ofDigits ds
      some (some (if down then -n else n), rest)
  | cs => some (none, cs)

/-- A numeral behind its sign: no zero stands before other digits. -/
def magnitude? (negative : Bool) (cs : List Char) : Option (Numeral × List Char) :=
  match spanDigits cs with
  | ([], _) => none
  | (0 :: _ :: _, _) => none
  | (whole, cs) => do
    let (fraction, cs) ← fraction? cs
    let (power, cs) ← power? cs
    return (⟨negative, whole, fraction, power⟩, cs)

/-- A numeral, which has no plus sign. -/
def numeral? : List Char → Option (Numeral × List Char)
  | '-' :: cs => magnitude? true cs
  | cs => magnitude? false cs

/-! ## Every token uses up some of the text -/

theorem length_of_spanDigits {cs rest : List Char} {ds : List Nat}
    (h : spanDigits cs = (ds, rest)) : rest.length ≤ cs.length := by
  obtain ⟨rfl, rfl⟩ := Prod.mk.inj h
  exact (List.dropWhile_sublist _).length_le

theorem length_of_spanDigits_cons {cs rest : List Char} {d : Nat} {ds : List Nat}
    (h : spanDigits cs = (d :: ds, rest)) : rest.length < cs.length := by
  obtain ⟨h₁, rfl⟩ := Prod.mk.inj h
  cases cs with
  | nil => simp at h₁
  | cons c cs =>
    by_cases hc : c.isDigit = true
    · rw [List.dropWhile_cons_of_pos hc]
      exact Nat.lt_succ_of_le (List.dropWhile_sublist _).length_le
    · simp [hc] at h₁

theorem length_of_fraction? {cs rest : List Char} {ds : List Nat}
    (h : fraction? cs = some (ds, rest)) : rest.length ≤ cs.length := by
  unfold fraction? at h
  split at h
  · split at h
    · simp at h
    · rename_i cs ds' rest' _ hs
      obtain ⟨rfl, rfl⟩ := Prod.mk.inj (Option.some.inj h)
      have := length_of_spanDigits hs
      simp only [List.length_cons]
      omega
  · obtain ⟨rfl, rfl⟩ := Prod.mk.inj (Option.some.inj h)
    exact Nat.le_refl _

theorem length_of_spanSign (cs : List Char) : (spanSign cs).2.length ≤ cs.length := by
  unfold spanSign
  split <;> simp

theorem length_of_power? {cs rest : List Char} {n : Option Int}
    (h : power? cs = some (n, rest)) : rest.length ≤ cs.length := by
  have marked (cs' : List Char) (h : (match spanDigits (spanSign cs').2 with
      | ([], _) => none
      | (ds, rest) =>
        let n : Int := Numeral.ofDigits ds
        some (some (if (spanSign cs').1 then -n else n), rest)) = some (n, rest)) :
      rest.length ≤ cs'.length + 1 := by
    split at h
    · simp at h
    · rename_i hs
      obtain ⟨_, rfl⟩ := Prod.mk.inj (Option.some.inj h)
      have := length_of_spanDigits hs
      have := length_of_spanSign cs'
      omega
  unfold power? at h
  split at h
  · exact marked _ h
  · exact marked _ h
  · obtain ⟨_, rfl⟩ := Prod.mk.inj (Option.some.inj h)
    exact Nat.le_refl _

theorem length_of_magnitude? {negative : Bool} {cs rest : List Char} {n : Numeral}
    (h : magnitude? negative cs = some (n, rest)) : rest.length < cs.length := by
  unfold magnitude? at h
  split at h
  · simp at h
  · simp at h
  · rename_i whole cs' _ _ hs
    simp only [Option.bind_eq_bind, Option.bind_eq_some_iff] at h
    obtain ⟨⟨f, r₁⟩, hf, ⟨p, r₂⟩, hp, he⟩ := h
    obtain ⟨_, rfl⟩ := Prod.mk.inj (Option.some.inj he)
    cases whole with
    | nil => simp_all
    | cons d ds =>
      have := length_of_spanDigits_cons hs
      have : r₁.length ≤ cs'.length := length_of_fraction? hf
      have : r₂.length ≤ r₁.length := length_of_power? hp
      show r₂.length < cs.length
      omega

theorem length_of_numeral? {cs rest : List Char} {n : Numeral}
    (h : numeral? cs = some (n, rest)) : rest.length < cs.length := by
  unfold numeral? at h
  split at h
  · have := length_of_magnitude? h
    simp only [List.length_cons]
    omega
  · exact length_of_magnitude? h

/-! ## The token list -/

def isSpace (c : Char) : Bool := c == ' ' || c == '\n' || c == '\r' || c == '\t'

/-- A punctuation mark. -/
def mark? : Char → Option Token
  | '{' => some .openObject
  | '}' => some .closeObject
  | '[' => some .openArray
  | ']' => some .closeArray
  | ':' => some .colon
  | ',' => some .comma
  | _ => none

/-- One of the three words, without its first letter. -/
def literal? : Char → List Char → Option (Token × List Char)
  | 'n', 'u' :: 'l' :: 'l' :: cs => some (.null, cs)
  | 't', 'r' :: 'u' :: 'e' :: cs => some (.bool true, cs)
  | 'f', 'a' :: 'l' :: 's' :: 'e' :: cs => some (.bool false, cs)
  | _, _ => none

theorem length_of_literal? {c : Char} {cs rest : List Char} {token : Token}
    (h : literal? c cs = some (token, rest)) : rest.length < (c :: cs).length := by
  unfold literal? at h
  split at h <;> simp_all <;> omega

def tokens : List Char → Option (List Token)
  | [] => some []
  | c :: cs =>
    if isSpace c then tokens cs
    else
      match mark? c with
      | some token => (tokens cs).map (token :: ·)
      | none =>
        if c = '"' then
          match h : pieces cs with
          | some (ps, rest) =>
            have := length_of_pieces h
            (tokens rest).map (.string ((join ps).map String.ofList) :: ·)
          | none => none
        else
          match h : literal? c cs with
          | some (token, rest) =>
            have := length_of_literal? h
            (tokens rest).map (token :: ·)
          | none =>
            match h : numeral? (c :: cs) with
            | some (n, rest) =>
              have := length_of_numeral? h
              (tokens rest).map (.number n :: ·)
            | none => none
termination_by cs => cs.length
decreasing_by all_goals simp_all; try omega

end LockElision.Json
