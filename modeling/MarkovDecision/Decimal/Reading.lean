import MarkovDecision.Decimal.Binary

/-!
# Reading numbers

Whole numbers are a run of digits with an optional plus sign and an upper limit.  Decimals have
an optional sign, digits with an optional point, and an optional exponent; the nearest double is
taken.  Infinity and the invalid number are written as words in any case.
-/

namespace MarkovDecision

def digitValue? (c : Char) : Option Nat :=
  if c.isDigit then some (c.toNat - '0'.toNat) else none

def digitsValue (digits : List Char) : Nat :=
  digits.foldl (fun value c => 10 * value + (c.toNat - '0'.toNat)) 0

/-- The digits at the start of a list, and what follows them. -/
def spanDigits (chars : List Char) : List Char × List Char :=
  (chars.takeWhile Char.isDigit, chars.dropWhile Char.isDigit)

/-- The double nearest to `coefficient * 10 ^ exponent`.  Exponents far outside the range of
doubles are settled without computing the power. -/
def nearestDecimal (coefficient : Nat) (exponent : Int) : Float :=
  let size : Int := (Nat.toDigits 10 coefficient).length + exponent
  if coefficient = 0 ∨ size < -400 then 0
  else if 400 < size then 1 / 0
  else nearestFloat (coefficient * Nat.pow 10 exponent.toNat) (Nat.pow 10 (-exponent).toNat)

/-- The double written as a whole part, a fraction and a power of ten. -/
def decimalValue (whole fraction : List Char) (exponent : Int) : Float :=
  nearestDecimal (digitsValue (whole ++ fraction)) (exponent - fraction.length)

/-- An optional sign at the start of a list: whether it is a minus, and what follows. -/
def spanSign : List Char → Bool × List Char
  | '-' :: rest => (true, rest)
  | '+' :: rest => (false, rest)
  | chars => (false, chars)

/-- Reads a whole number below `limit`: digits, perhaps after a plus sign. -/
def readWhole? (limit : Nat) (text : String) : Option Nat :=
  let digits := match text.toList with
    | '+' :: rest => rest
    | chars => chars
  if digits.isEmpty || !digits.all Char.isDigit then none
  else
    let value := digitsValue digits
    if value < limit then some value else none

/-- Reads an exponent: `e` or `E`, an optional sign and digits.  The end of the text stands for
exponent zero. -/
def readExponent? : List Char → Option Int
  | [] => some 0
  | mark :: rest =>
    let (negative, digits) := spanSign rest
    if (mark != 'e' && mark != 'E') || digits.isEmpty || !digits.all Char.isDigit then none
    else some (if negative then -digitsValue digits else digitsValue digits)

def readMagnitude? (chars : List Char) : Option Float :=
  let word := String.ofList (chars.map Char.toLower)
  if word = "inf" ∨ word = "infinity" then some (1 / 0)
  else if word = "nan" then some (0 / 0)
  else
    let (whole, rest) := spanDigits chars
    let (fraction, rest) := match rest with
      | '.' :: rest => spanDigits rest
      | _ => ([], rest)
    if whole.isEmpty && fraction.isEmpty then none
    else (readExponent? rest).map (decimalValue whole fraction)

def readFloat? (text : String) : Option Float :=
  let (negative, rest) := spanSign text.toList
  (readMagnitude? rest).map fun magnitude => if negative then -magnitude else magnitude

end MarkovDecision
