import MarkovDecision.Decimal.Shortest

/-!
# Decimal notation

Three ways to write a double: positionally with the shortest digits, in the same way but with a
decimal point or an exponent always present, and rounded to a fixed number of places.
-/

namespace MarkovDecision

namespace Decimal

/-- Digits with the point set positionally and zeros filled in; whole numbers have no point. -/
def positional (decimal : Decimal) : String :=
  let digits := decimal.digits
  let zeros (count : Int) := List.replicate count.toNat '0'
  if decimal.point ≤ 0 then
    String.ofList ('0' :: '.' :: (zeros (-decimal.point) ++ digits))
  else if digits.length ≤ decimal.point then
    String.ofList (digits ++ zeros (decimal.point - digits.length))
  else
    String.ofList (digits.take decimal.point.toNat ++ '.' :: digits.drop decimal.point.toNat)

/-- One digit, the others behind a point, and the power of ten. -/
def scientific (decimal : Decimal) : String :=
  let mantissa := match decimal.digits with
    | first :: second :: rest => String.ofList (first :: '.' :: second :: rest)
    | short => String.ofList short
  mantissa ++ "e" ++ toString (decimal.point - 1)

end Decimal

/-- A sign in front of the text of a magnitude. -/
def withSign (negative : Bool) (magnitude : String) : String :=
  if negative then "-" ++ magnitude else magnitude

/-- The positional text of a double: the shortest digits that read back, never an exponent, and
no point in whole numbers. -/
def floatText (value : Float) : String :=
  match Binary.ofFloat value with
  | .finite negative significand exponent =>
    withSign negative <|
      if significand = 0 then "0" else (Decimal.shortest significand exponent).positional
  | .infinite negative => withSign negative "inf"
  | .invalid => "NaN"

/-- The text of a double that shows its type: whole numbers end in `.0`, and magnitudes from
`10 ^ 16` on or below `10 ^ -4` have an exponent. -/
def typedFloatText (value : Float) : String :=
  match Binary.ofFloat value with
  | .finite negative significand exponent =>
    withSign negative <|
      if significand = 0 then "0.0"
      else
        let decimal := Decimal.shortest significand exponent
        if 16 < decimal.point ∨ decimal.point < -3 then decimal.scientific
        else if decimal.digits.length ≤ decimal.point then decimal.positional ++ ".0"
        else decimal.positional
  | .infinite negative => withSign negative "inf"
  | .invalid => "NaN"

/-- The text of a double rounded to `places` digits behind the point. -/
def fixedText (places : Nat) (value : Float) : String :=
  match Binary.ofFloat value with
  | .finite negative significand exponent =>
    let scaled := significand * Nat.pow 10 places
    let rounded := if 0 ≤ exponent then scaled * Nat.pow 2 exponent.toNat
      else roundedQuotient scaled (Nat.pow 2 (-exponent).toNat)
    let fraction := toString (rounded % Nat.pow 10 places)
    withSign negative <|
      toString (rounded / Nat.pow 10 places) ++ (if places = 0 then "" else
        "." ++ String.ofList (List.replicate (places - fraction.length) '0') ++ fraction)
  | .infinite negative => withSign negative "inf"
  | .invalid => "NaN"

end MarkovDecision
