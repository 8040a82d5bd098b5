/-!
# Doubles as fractions

A finite double is a whole number of units, a unit being a power of two. `Double.ofFloat` reads
that off the bits, and `Double.nearest` is the double nearest to a fraction, so that texts and
doubles can be compared in exact arithmetic.
-/

namespace LockElision

inductive Double where
  | nan
  | infinite (negative : Bool)
  /-- The number `units` times two to the power of `exponent`, with a sign that zero has too. -/
  | finite (negative : Bool) (units : Nat) (exponent : Int)
  deriving DecidableEq, Repr

/-- A quotient rounded to the nearest whole number; a half goes to the even one. -/
def roundDiv (num den : Nat) : Nat :=
  let q := num / den
  match compare (2 * (num % den)) den with
  | .lt => q
  | .gt => q + 1
  | .eq => if q % 2 = 0 then q else q + 1

namespace Double

/-- The exponent of the smallest unit. -/
def leastExponent : Int := -1074

def ofBits (bits : UInt64) : Double :=
  let negative := bits >>> 63 == 1
  let field := ((bits >>> 52) &&& 0x7ff).toNat
  let fraction := (bits &&& 0xfffffffffffff).toNat
  if field = 0x7ff then
    if fraction = 0 then infinite negative else nan
  else if field = 0 then finite negative fraction leastExponent
  else finite negative (Nat.pow 2 52 + fraction) (leastExponent + (field - 1 : Nat))

def ofFloat (x : Float) : Double := ofBits x.toBits

/-- The bits of an infinity without its sign. -/
def infiniteBits : Nat := 0x7ff * Nat.pow 2 52

/-- The bits of the double nearest to `num / den`, with ties to the even one. The unit is chosen so
that 53 bits hold the units, unless that is below the smallest; a carry out of rounding runs into
the exponent field, as it should. -/
def nearestBits (num den : Nat) : Nat :=
  if num = 0 then 0
  else
    let guess : Int := (num.log2 : Int) - den.log2 - 52
    let units (e : Int) (div : Nat → Nat → Nat) : Nat :=
      div (num * Nat.pow 2 (-e).toNat) (den * Nat.pow 2 e.toNat)
    let e := if units guess (· / ·) < Nat.pow 2 52 then guess - 1 else guess
    let e := max e leastExponent
    min ((e - leastExponent).toNat * Nat.pow 2 52 + units e roundDiv) infiniteBits

/-- The double nearest to a fraction with a sign. -/
def nearest (negative : Bool) (num den : Nat) : Float :=
  let bits := UInt64.ofNat (nearestBits num den)
  Float.ofBits (if negative then bits ||| 0x8000000000000000 else bits)

def infinity (negative : Bool) : Float :=
  Float.ofBits (UInt64.ofNat infiniteBits ||| (if negative then 0x8000000000000000 else 0))

end Double

end LockElision
