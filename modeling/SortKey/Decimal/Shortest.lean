namespace SortKey
namespace Decimal

/-!
# The shortest decimal of a double

A double is taken apart into a significand and a power of two.  The reals
that round to it form an interval around it, whose ends belong to it when the
significand is even.  A decimal with the fewest digits in that interval lies
on the coarsest decimal grid that meets the interval, and if any point of a
grid does, then one of the two neighbours of the value does.  The nearer
neighbour is taken; of two that are equally near, the larger one.  Its digits
do not end in a zero, because it would lie on a coarser grid then.
-/

/-- The decimal `digits * 10 ^ exponent`. -/
structure Numeral where
  digits : Nat
  exponent : Int
deriving DecidableEq, Repr

/-- A positive number `m * 2 ^ q` and the interval that rounds to it, in
quarters of its last place. -/
structure Rounding where
  /-- The lower end, in units of `2 ^ scale`. -/
  low : Nat
  /-- The number itself, in the same units. -/
  value : Nat
  /-- The upper end, in the same units. -/
  high : Nat
  scale : Int
  /-- Whether the ends round to the number. -/
  closed : Bool
deriving DecidableEq, Repr

/-- The exponent bits of a double. -/
def exponentBits (bits : UInt64) : Nat :=
  bits.toNat >>> 52 % 2048

/-- The fraction bits of a double. -/
def fractionBits (bits : UInt64) : Nat :=
  bits.toNat % 0x10000000000000

/-- Whether the sign bit is set. -/
def isNegative (bits : UInt64) : Bool :=
  0x8000000000000000 ≤ bits.toNat

/-- The interval of the magnitude of a finite double.  Below a power of two
the doubles are twice as dense, unless the exponent is the least. -/
def rounding (bits : UInt64) : Rounding :=
  let exponent := exponentBits bits
  let fraction := fractionBits bits
  let m := if exponent = 0 then fraction else fraction + 0x10000000000000
  let below := if fraction = 0 ∧ exponent > 1 then 1 else 2
  { low := 4 * m - below
    value := 4 * m
    high := 4 * m + 2
    scale := (if exponent = 0 then 1 else (exponent : Int)) - 1077
    closed := m % 2 = 0 }

/-- The multiple of `10 ^ exponent` in the interval that is nearest to the
value, if there is one.  Everything is brought to a common unit first. -/
def onGrid (r : Rounding) (exponent : Int) : Option Numeral :=
  let grid := Nat.pow 10 exponent.toNat * Nat.pow 2 (-r.scale).toNat
  let unit := Nat.pow 2 r.scale.toNat * Nat.pow 10 (-exponent).toNat
  let low := r.low * unit
  let value := r.value * unit
  let high := r.high * unit
  let inside (point : Nat) : Bool :=
    if r.closed then low ≤ point && point ≤ high else low < point && point < high
  let floor := value / grid
  let lower := floor * grid
  let upper := (floor + 1) * grid
  match inside lower, inside upper with
  | true, true => some ⟨if upper - value ≤ value - lower then floor + 1 else floor, exponent⟩
  | true, false => some ⟨floor, exponent⟩
  | false, true => some ⟨floor + 1, exponent⟩
  | false, false => none

/-- No double reaches `10 ^ 309`, and no gap between doubles is below
`10 ^ (-324)`. -/
def coarsest : Int := 309

/-- How many grids are tried. -/
def grids : Nat := 640

/-- The shortest decimal of a number, on the first grid that has one. -/
def shortest (r : Rounding) : Numeral :=
  ((List.range grids).findSome? fun step : Nat => onGrid r (coarsest - step)).getD ⟨0, 0⟩

end Decimal
end SortKey
