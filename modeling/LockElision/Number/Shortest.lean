import LockElision.Number.Double

/-!
# Shortest digits

The fewest decimal digits that read back as a given double, and of those the nearest to it. The
reals that read back as the double form an interval. A decimal grid whose points hit that interval
hits it next to the double itself, so on each grid only two points are tried, coarse grids first.
-/

namespace LockElision

/-- The number `digits` times ten to the power of `exponent`. -/
structure Decimal where
  digits : Nat
  exponent : Int
  deriving DecidableEq, Repr

namespace Decimal

/-- Without zeros at the end of the digits. -/
def trim (d : Decimal) : Decimal :=
  go d.digits d
where
  go : Nat → Decimal → Decimal
    | 0, d => d
    | fuel + 1, d =>
      if d.digits ≠ 0 ∧ d.digits % 10 = 0 then go fuel ⟨d.digits / 10, d.exponent + 1⟩ else d

/-- The exponent of the first digit. -/
def leading (d : Decimal) : Int := d.exponent + (Nat.toDigits 10 d.digits).length - 1

end Decimal

/-- The reals around `units · 2 ^ exponent` that read back as it, in quarters of a unit. -/
structure Rounding where
  value : Nat
  least : Nat
  greatest : Nat
  /-- Whether the ends read back too. -/
  closed : Bool
  exponent : Int

namespace Rounding

/-- Below a power of two the neighbour is half as far away, unless the unit is the smallest. -/
def around (units : Nat) (exponent : Int) : Rounding where
  value := 4 * units
  least :=
    if units = Nat.pow 2 52 ∧ Double.leastExponent < exponent then 4 * units - 1
    else 4 * units - 2
  greatest := 4 * units + 2
  closed := units % 2 = 0
  exponent := exponent - 2

/-- Brings a count of quarters and a count of grid points to one scale. -/
def scales (r : Rounding) (grid : Int) : Nat × Nat :=
  (Nat.pow 2 r.exponent.toNat * Nat.pow 10 (-grid).toNat,
    Nat.pow 10 grid.toNat * Nat.pow 2 (-r.exponent).toNat)

/-- The nearest of the two grid points around the value that read back as it. -/
def onGrid? (r : Rounding) (grid : Int) : Option Nat :=
  let (quarter, point) := r.scales grid
  let hits (c : Nat) : Bool :=
    if r.closed then r.least * quarter ≤ c * point && c * point ≤ r.greatest * quarter
    else r.least * quarter < c * point && c * point < r.greatest * quarter
  let below := r.value * quarter / point
  match hits below, hits (below + 1) with
  | true, false => some below
  | false, true => some (below + 1)
  | false, false => none
  | true, true => some (roundDiv (r.value * quarter) point)

/-- The first hit on the grids from `grid` down, each ten times as fine as the one before. -/
def firstHit (r : Rounding) : Nat → Int → Decimal
  | 0, grid => ⟨0, grid⟩
  | fuel + 1, grid =>
    match r.onGrid? grid with
    | some c => ⟨c, grid⟩
    | none => firstHit r fuel (grid - 1)

end Rounding

/-- The shortest decimal that reads back as `units · 2 ^ exponent`, which is not zero. Seventeen
digits always do, and the first grid is at most two above the first digit. -/
def shortest (units : Nat) (exponent : Int) : Decimal :=
  let top := (units.log2 + exponent + 1) * 30103 / 100000 + 1
  ((Rounding.around units exponent).firstHit 21 top).trim

end LockElision
