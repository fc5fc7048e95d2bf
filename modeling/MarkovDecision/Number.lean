/-!
# Numbers

The algorithms of this library are written once, over any type of numbers with the operations
listed in `Number`.  They run on double-precision floats and are reasoned about over the
rationals, where every operation is exact.

An unreachable state has an infinite distance, and the best of no values is negative infinity.
A type with such values offers them through `Number.infinity?`; a type without them answers
`none`, and the algorithms then carry an `Option` whose `none` stands beyond every number.
-/

namespace MarkovDecision

/-- The operations that the algorithms need of a type of numbers. -/
class Number (R : Type) extends Zero R, One R, Add R, Sub R, Neg R, Mul R, Div R, NatCast R,
    LT R, LE R where
  /-- Strict comparison is decided. -/
  decideLt : DecidableLT R
  /-- Comparison is decided. -/
  decideLe : DecidableLE R
  /-- Whether a number is an ordinary one: neither infinite nor the result of an invalid operation. -/
  isFinite : R → Bool
  /-- The number above every other, if there is one. -/
  infinity? : Option R
  /-- The order in which numbers serve as keys of a table. -/
  keyOrder : R → R → Ordering
  /-- The next smaller representable number; a dense type answers the number itself. -/
  nextBelow : R → R

namespace Number

attribute [reducible, instance] Number.decideLt Number.decideLe

variable {R : Type} [Number R]

/-- The number below every other, if there is one. -/
def lowest? : Option R :=
  (infinity? : Option R).map (- ·)

/-- Equality of values: it holds of the two zeros and never of an invalid number. -/
def same (first second : R) : Bool :=
  first ≤ second && second ≤ first

def magnitude (value : R) : R :=
  if value < 0 then -value else value

/-- The larger of two numbers, the second of equal ones; an invalid number is passed over. -/
def larger (first second : R) : R :=
  if second < first then first else if second ≤ second then second else first

/-- The smaller of two numbers, the second of equal ones; an invalid number is passed over. -/
def smaller (first second : R) : R :=
  if first < second then first else if second ≤ second then second else first

/-- Whether a number is above the best one so far; every number is above none. -/
def beats (value : R) (best? : Option R) : Bool :=
  match best? with
  | some best => best < value
  | none => true

/-- The fraction `1 / 10 ^ places`. -/
def decimal (places : Nat) : R :=
  1 / ((Nat.pow 10 places : Nat) : R)

/-- The sum of a list from left to right, started at negative zero so that a sum of negative
zeros keeps its sign. -/
def sum (values : List R) : R :=
  values.foldl (· + ·) (-0)

/-- The largest number of a list, where invalid numbers are passed over; the empty list answers
`lowest?`. -/
def largest? (values : List R) : Option R :=
  values.foldl (fun best value => some (best.elim value (larger · value))) lowest?

/-- The first entry with the largest number, where only numbers above `lowest?` count. -/
def firstBest? {E : Type} (entries : List (E × R)) : Option (E × R) :=
  entries.foldl (fun best? entry =>
    if beats entry.2 ((best?.map (·.2)).or lowest?) then some entry else best?) none

end Number

/-- Rank of a double among the keys of a table: the two zeros share a rank, and invalid numbers
share the highest. -/
def floatRank (value : Float) : UInt64 :=
  let signBit : UInt64 := 0x8000000000000000
  let bits := value.toBits
  if value.isNaN then 0xffffffffffffffff
  else if bits < signBit then bits ||| signBit
  else if bits = signBit then signBit
  else ~~~bits

/-- The double just below a positive one. -/
def floatBelow (value : Float) : Float :=
  Float.ofBits (value.toBits - 1)

instance : Number Float where
  zero := 0
  one := 1
  natCast := Float.ofNat
  decideLt := inferInstance
  decideLe := inferInstance
  isFinite := Float.isFinite
  infinity? := some (1 / 0)
  keyOrder first second := compare (floatRank first) (floatRank second)
  nextBelow := floatBelow

instance : Number Rat where
  zero := 0
  one := 1
  decideLt := inferInstance
  decideLe := inferInstance
  isFinite _ := true
  infinity? := none
  keyOrder first second := compareOfLessAndEq first second
  nextBelow := id

end MarkovDecision
