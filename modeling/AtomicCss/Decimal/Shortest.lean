import AtomicCss.Binary64
import AtomicCss.Decimal.Basic
/-!
# Shortest decimal of a number

`shortest` gives the decimal that reads back as a given number and lies on the coarsest power of
ten that holds such a decimal, and of those the one closest to the number. So it has the fewest
digits, and no decimal with as few is closer.

The decimals that read back form an interval: half the distance to the neighbour on either side,
the ends included if the last binary digit of the number is even.
-/

namespace AtomicCss.Decimal

/-- Which of two equally close decimals is taken. -/
inductive Tie
  | upper
  | even
deriving DecidableEq, Repr

/-- Numbers between `low` and `high` round to `value`; all three are counts of a common unit. -/
structure Interval where
  low : Nat
  value : Nat
  high : Nat
  closed : Bool

/-- The interval around a positive count of units, in half units. Below a power of two the
neighbours are half as far apart as above it. -/
def Interval.around (units : Nat) : Interval :=
  let above := Binary64.spacing units
  let below := Binary64.spacing (units - 1)
  { low := 2 * units - below
    value := 2 * units
    high := 2 * units + above
    closed := units / above % 2 = 0 }

def Interval.contains (interval : Interval) (scale point : Nat) : Bool :=
  if interval.closed then
    decide (interval.low * scale ≤ point ∧ point ≤ interval.high * scale)
  else
    decide (interval.low * scale < point ∧ point < interval.high * scale)

/-- The multiple of `10 ^ exponent` inside the interval that is closest to its value. -/
def closest? (tie : Tie) (interval : Interval) (exponent : Int) : Option Nat :=
  let scale := powerOfTen (-exponent).toNat
  let grid := powerOfTen exponent.toNat * (2 * Binary64.one)
  let value := interval.value * scale
  let lower := value / grid
  let upper := lower + 1
  match interval.contains scale (lower * grid), interval.contains scale (upper * grid) with
  | false, false => none
  | true, false => some lower
  | false, true => some upper
  | true, true =>
    let toLower := value - lower * grid
    let toUpper := upper * grid - value
    if toLower < toUpper then some lower
    else if toUpper < toLower then some upper
    else match tie with
      | .upper => some upper
      | .even => some (if lower % 2 = 0 then lower else upper)

/-- The first hit on the grids from `10 ^ exponent` downwards. -/
def coarsest (tie : Tie) (interval : Interval) : Nat → Int → Decimal
  | 0, exponent => ⟨(closest? tie interval exponent).getD 0, exponent⟩
  | grids + 1, exponent =>
    match closest? tie interval exponent with
    | some coefficient => ⟨coefficient, exponent⟩
    | none => coarsest tie interval grids (exponent - 1)

/-- A power of ten above `units`. Seventeen digits always read back, so the search that starts
here ends within twenty steps. -/
def leadingExponent (units : Nat) : Int :=
  ((units.log2 : Int) - 1073) * 30103 / 100000 + 1

/-- The shortest decimal that reads back as a positive count of units. -/
def shortest (tie : Tie) (units : Nat) : Decimal :=
  coarsest tie (.around units) 20 (leadingExponent units)

end AtomicCss.Decimal
