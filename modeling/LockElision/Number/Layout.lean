import LockElision.Number.Shortest

/-!
# Layouts of doubles

How a double is written: by its shortest digits, in full or with a power of ten, as a layout says;
or with a fixed number of places.
-/

namespace LockElision

/-- The conventions of one format. -/
structure DoubleLayout where
  /-- The least exponent of the first digit with which a number is written in full. -/
  fullFrom : Int
  /-- The least exponent beyond that with which it no longer is. -/
  fullBelow : Int
  /-- Whether a power of ten that is not negative has a plus sign. -/
  plus : Bool

namespace DoubleLayout

def zeros (n : Nat) : List Char := List.replicate n '0'

/-- The digits with a point in them or before them, and at least one place after it. -/
def full (digits : List Char) (leading : Int) : List Char :=
  if leading < 0 then ['0', '.'] ++ zeros (-leading - 1).toNat ++ digits
  else
    let whole := leading.toNat + 1
    let rest := digits.drop whole
    let places := if rest.isEmpty then ['0'] else rest
    digits.take whole ++ zeros (whole - digits.length) ++ '.' :: places

def scientific (plus : Bool) (digits : List Char) (leading : Int) : List Char :=
  let sign := if leading < 0 then ['-'] else if plus then ['+'] else []
  let point := if digits.length ≤ 1 then [] else '.' :: digits.drop 1
  digits.take 1 ++ point ++ 'e' :: (sign ++ Nat.toDigits 10 leading.natAbs)

/-- A finite double. Zero is written in full, with its sign. -/
def finite (layout : DoubleLayout) (negative : Bool) (units : Nat) (exponent : Int) : String :=
  let sign := if negative then ['-'] else []
  let body :=
    if units = 0 then ['0', '.', '0']
    else
      let d := shortest units exponent
      let digits := Nat.toDigits 10 d.digits
      if layout.fullFrom ≤ d.leading ∧ d.leading < layout.fullBelow then full digits d.leading
      else scientific layout.plus digits d.leading
  String.ofList (sign ++ body)

end DoubleLayout

/-- What a number that is none, and one without bounds, are called. -/
def Double.unnumbered (negative : Option Bool) : String :=
  match negative with
  | none => "NaN"
  | some true => "-inf"
  | some false => "inf"

/-- A double with so many places, rounded exactly, a half to the even digit. -/
def fixedPlaces (places : Nat) (x : Float) : String :=
  match Double.ofFloat x with
  | .nan => Double.unnumbered none
  | .infinite negative => Double.unnumbered (some negative)
  | .finite negative units exponent =>
    let scaled := roundDiv (units * Nat.pow 2 exponent.toNat * Nat.pow 10 places)
      (Nat.pow 2 (-exponent).toNat)
    let digits := Nat.toDigits 10 scaled
    let digits := DoubleLayout.zeros (places + 1 - digits.length) ++ digits
    let whole := digits.length - places
    let sign := if negative then ['-'] else []
    String.ofList (sign ++ digits.take whole ++ '.' :: digits.drop whole)

/-- How inspection shows a double. -/
def Inspect.double (x : Float) : String :=
  match Double.ofFloat x with
  | .nan => Double.unnumbered none
  | .infinite negative => Double.unnumbered (some negative)
  | .finite negative units exponent => DoubleLayout.finite ⟨-4, 16, false⟩ negative units exponent

end LockElision
