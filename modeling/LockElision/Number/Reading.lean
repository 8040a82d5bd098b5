import LockElision.Number.Double

/-!
# Reading doubles

A decimal numeral is digits, perhaps with a point and a power of ten. `Numeral.nearest` is the
double nearest to what it says. `Numeral.scaled` is a quicker reading that rounds more than once:
it takes digits while they fit in 64 bits, and multiplies or divides once by a power of ten; its
answer may be a neighbour of the nearest double, and numerals too large for it are refused.
-/

namespace LockElision

structure Numeral where
  negative : Bool
  whole : List Nat
  fraction : List Nat
  /-- The power of ten, if one is written. -/
  power : Option Int
  deriving DecidableEq, Repr

def digitValue (c : Char) : Nat := c.toNat - '0'.toNat

namespace Numeral

def ofDigits (digits : List Nat) : Nat := digits.foldl (fun n d => 10 * n + d) 0

/-- The doubles have no power of ten beyond this, upwards or, with the digits, downwards. -/
def nearest (n : Numeral) : Float :=
  let digits := n.whole ++ n.fraction
  let power := n.power.getD 0 - n.fraction.length
  let value := ofDigits digits
  if value = 0 then Double.nearest n.negative 0 1
  else if 400 < power then Double.infinity n.negative
  else if power < -400 - digits.length then Double.nearest n.negative 0 1
  else Double.nearest n.negative (value * Nat.pow 10 power.toNat)
    (Nat.pow 10 (-power).toNat)

/-- Takes digits while the number they make fits in 64 bits: the number, and the digits left. -/
def fit : Nat → List Nat → Nat × List Nat
  | n, [] => (n, [])
  | n, d :: ds => if 10 * n + d < UInt64.size then fit (10 * n + d) ds else (n, d :: ds)

/-- The greatest power of ten that is a double. -/
def tenLimit : Nat := 308

def powerOfTen (n : Nat) : Float := Double.nearest false (Nat.pow 10 n) 1

/-- Divides by ten to the power of `power`, in steps no greater than the limit. -/
def shrink : Nat → Float → Nat → Float
  | 0, x, _ => x
  | fuel + 1, x, power =>
    if power ≤ tenLimit then x / powerOfTen power
    else if x == 0 then x
    else shrink fuel (x / powerOfTen tenLimit) (power - tenLimit)

/-- A number times a power of ten; `none` if that is too large. -/
def scale (x : Float) (power : Int) : Option Float :=
  if power < 0 then some (shrink 8 x power.natAbs)
  else if power.toNat ≤ tenLimit then
    let y := x * powerOfTen power.toNat
    if y.isInf then none else some y
  else if x == 0 then some x
  else none

/-- The quicker reading. -/
def scaled (n : Numeral) : Option Float :=
  let (significand, overflow) := fit 0 n.whole
  let (significand, unused) := fit significand n.fraction
  let power := (n.power.getD 0) + overflow.length - (n.fraction.length - unused.length : Nat)
  (scale significand.toUInt64.toFloat power).map fun x => if n.negative then -x else x

end Numeral

/-- Splits off the digits a text begins with. -/
def spanDigits (cs : List Char) : List Nat × List Char :=
  ((cs.takeWhile Char.isDigit).map digitValue, cs.dropWhile Char.isDigit)

/-- A sign, if there is one, and the rest. -/
def spanSign : List Char → Bool × List Char
  | '-' :: cs => (true, cs)
  | '+' :: cs => (false, cs)
  | cs => (false, cs)

/-- The double a text names: a numeral, an infinity, or no number. -/
def readDouble (text : String) : Option Float :=
  let (negative, cs) := spanSign text.toList
  let word := String.ofList (cs.map Char.toLower)
  if word = "nan" then some (0.0 / 0.0)
  else if word = "inf" ∨ word = "infinity" then some (Double.infinity negative)
  else
    let (whole, cs) := spanDigits cs
    let (fraction, cs) := match cs with
      | '.' :: cs => spanDigits cs
      | cs => ([], cs)
    if whole.isEmpty && fraction.isEmpty then none
    else
      match cs with
      | [] => some (Numeral.nearest ⟨negative, whole, fraction, none⟩)
      | c :: cs =>
        if c = 'e' ∨ c = 'E' then
          let (down, cs) := spanSign cs
          match spanDigits cs with
          | (_ :: _, _ :: _) | ([], _) => none
          | (digits, []) =>
            let n : Int := Numeral.ofDigits digits
            some (Numeral.nearest ⟨negative, whole, fraction, some (if down then -n else n)⟩)
        else none

end LockElision
