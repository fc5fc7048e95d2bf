/-!
# The value of a double

A finite double is a whole number times a power of two.  All conversions between doubles and
decimal text go through this exact form: `Binary.ofFloat` reads it off the bits, and
`nearestFloat` rounds an exact fraction to the closest double.
-/

namespace MarkovDecision

/-- What a double stands for: a signed multiple of a power of two, an infinity, or the result of
an invalid operation. -/
inductive Binary where
  | finite (negative : Bool) (significand : Nat) (exponent : Int)
  | infinite (negative : Bool)
  | invalid
  deriving DecidableEq, Repr

namespace Binary

/-- Reads the sign, the significand and the exponent off the bits of a double. -/
def ofFloat (value : Float) : Binary :=
  let bits := value.toBits.toNat
  let negative := bits / Nat.pow 2 63 == 1
  let field : Nat := bits / Nat.pow 2 52 % Nat.pow 2 11
  let fraction := bits % Nat.pow 2 52
  if field = Nat.pow 2 11 - 1 then
    if fraction = 0 then .infinite negative else .invalid
  else if field = 0 then .finite negative fraction (-1074)
  else .finite negative (Nat.pow 2 52 + fraction) ((field : Int) - 1075)

end Binary

/-- The quotient of two numbers rounded to the nearest whole number, a half going to the even
neighbour. -/
def roundedQuotient (numerator denominator : Nat) : Nat :=
  let quotient := numerator / denominator
  let twice := 2 * (numerator % denominator)
  if denominator < twice ∨ (twice = denominator ∧ quotient % 2 = 1) then quotient + 1
  else quotient

/-- The exponent of the unit in which the double nearest to a positive fraction counts: the
largest one for which the fraction makes up `2 ^ 52` units or more, but no less than `-1074`. -/
def unitExponent (numerator denominator : Nat) : Int :=
  let bits : Int := numerator.log2 - denominator.log2
  let reaches (exponent : Int) : Bool :=
    denominator * Nat.pow 2 (52 + exponent).toNat ≤ numerator * Nat.pow 2 (-(52 + exponent)).toNat
  let exponent := if reaches (bits - 52) then bits - 52 else bits - 53
  max exponent (-1074)

/-- The double nearest to a fraction, a half going to the even neighbour.  Fractions beyond the
largest double round to infinity. -/
def nearestFloat (numerator denominator : Nat) : Float :=
  if numerator = 0 then 0
  else
    let exponent := unitExponent numerator denominator
    let significand := roundedQuotient (numerator * Nat.pow 2 (-exponent).toNat)
      (denominator * Nat.pow 2 exponent.toNat)
    let bits := (exponent + 1074).toNat * Nat.pow 2 52 + significand
    if 2047 * Nat.pow 2 52 ≤ bits then 1 / 0 else Float.ofBits bits.toUInt64

end MarkovDecision
