import MarkovDecision.Decimal.Binary

/-!
# Shortest decimal digits

Among the decimals that read back to a given double, `shortest` picks one with the fewest digits,
and of those the nearest to the double; of two equally near ones it takes the larger.

For each count of digits only two candidates matter, the neighbours of the double on the grid of
decimals with that many digits: when any grid point reads back, one of these two does.
-/

namespace MarkovDecision

/-- A positive decimal: the digits of `coefficient`, with the decimal point placed `point` digits
after the start. -/
structure Decimal where
  coefficient : Nat
  point : Int
  deriving DecidableEq, Repr

namespace Decimal

def digits (decimal : Decimal) : List Char :=
  Nat.toDigits 10 decimal.coefficient

/-- The positive fraction `numerator / denominator` between two bounds over the same
denominator; `closed` tells whether the bounds belong to the interval. -/
structure Interval where
  lower : Nat
  numerator : Nat
  upper : Nat
  denominator : Nat
  closed : Bool

namespace Interval

/-- The decimals that read back to the double `significand * 2 ^ exponent` form an interval.
It reaches half way to each neighbour, and the lower neighbour of a power of two is nearer.  The
ends round to the double when its significand is even. -/
def ofBinary (significand : Nat) (exponent : Int) : Interval :=
  let gap := if significand = Nat.pow 2 52 ∧ exponent ≠ -1074 then 1 else 2
  let scale := if 2 ≤ exponent then Nat.pow 2 (exponent - 2).toNat else 1
  { lower := (4 * significand - gap) * scale
    numerator := 4 * significand * scale
    upper := (4 * significand + 2) * scale
    denominator := if 2 ≤ exponent then 1 else Nat.pow 2 (2 - exponent).toNat
    closed := significand % 2 = 0 }

/-- The number of digits before the decimal point, negative when zeros follow the point. -/
def point (interval : Interval) : Int :=
  let below (power : Int) : Bool :=
    if 0 ≤ power then Nat.pow 10 power.toNat * interval.denominator ≤ interval.numerator
    else interval.denominator ≤ interval.numerator * Nat.pow 10 (-power).toNat
  let bits : Int := interval.numerator.log2 - interval.denominator.log2
  let guess := (bits - 1) * 30103 / 100000
  if below (guess + 1) then guess + 2 else if below guess then guess + 1 else guess

/-- Whether the decimal `coefficient * 10 ^ power` lies in the interval. -/
def contains (interval : Interval) (coefficient : Nat) (power : Int) : Bool :=
  let raised := if 0 ≤ power then coefficient * Nat.pow 10 power.toNat * interval.denominator
    else coefficient * interval.denominator
  let scale := if 0 ≤ power then 1 else Nat.pow 10 (-power).toNat
  if interval.closed then interval.lower * scale ≤ raised ∧ raised ≤ interval.upper * scale
  else interval.lower * scale < raised ∧ raised < interval.upper * scale

/-- The candidate with `count` digits, if there is one in the interval. -/
def candidate? (interval : Interval) (point : Int) (count : Nat) : Option Nat :=
  let power := point - count
  let scaled := if 0 ≤ power then interval.numerator
    else interval.numerator * Nat.pow 10 (-power).toNat
  let unit := if 0 ≤ power then interval.denominator * Nat.pow 10 power.toNat
    else interval.denominator
  let below := scaled / unit
  let belowFits := interval.contains below power
  let aboveFits := interval.contains (below + 1) power
  if aboveFits && (!belowFits || unit ≤ 2 * (scaled % unit)) then some (below + 1)
  else if belowFits then some below
  else none

end Interval

/-- Searches the counts of digits from `count` on. -/
def shortestFrom (interval : Interval) (point : Int) (count : Nat) : Nat → Decimal
  | 0 => ⟨0, 0⟩
  | tries + 1 =>
    match interval.candidate? point count with
    | some coefficient =>
      if coefficient = Nat.pow 10 count then ⟨1, point + 1⟩ else ⟨coefficient, point⟩
    | none => shortestFrom interval point (count + 1) tries

/-- The shortest decimal that reads back to the positive double `significand * 2 ^ exponent`.
Seventeen digits always suffice. -/
def shortest (significand : Nat) (exponent : Int) : Decimal :=
  let interval := Interval.ofBinary significand exponent
  shortestFrom interval interval.point 1 17

end Decimal

end MarkovDecision
