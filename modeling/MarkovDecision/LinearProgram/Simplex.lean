import MarkovDecision.LinearProgram.Basic

/-!
# The dual simplex method

A dictionary expresses some variables, the basic ones, through the others, which are zero.  The
first dictionary expresses the slack of every constraint and of the upper limit of every variable
through the variables of the program.  Since the objective is the sum of the variables, raising
any of them costs something; a pivot exchanges a basic variable that is negative with another one
and keeps it so that raising a non-basic variable never pays.  When no basic variable is negative
the dictionary's constants are an optimal assignment, and a negative basic variable that no other
one can raise shows that the program is infeasible.

The choice of the smallest index among the candidates keeps the method from running in a circle.
-/

namespace MarkovDecision

variable {R : Type} [Number R]

/-- A basic variable written as a constant plus a combination of the non-basic variables. -/
structure DictionaryRow (R : Type) where
  label : Nat
  constant : R
  coefficients : Array R

/-- A dictionary: the labels of the non-basic variables, what it costs to raise each of them, and
the rows of the basic variables. -/
structure Dictionary (R : Type) where
  columns : Array Nat
  costs : Array R
  rows : List (DictionaryRow R)

/-- Below this size a number counts as the rounding error of zero. -/
def roundingError : R :=
  Number.decimal 12

def feasibilityTolerance : R :=
  Number.decimal 8

namespace DictionaryRow

def isNegative (row : DictionaryRow R) : Bool :=
  row.constant < -roundingError

/-- The non-basic variables that can raise the variable: their column, label and coefficient. -/
def raising (row : DictionaryRow R) (columns : Array Nat) : List (Nat × Nat × R) :=
  (columns.toList.zip row.coefficients.toList).zipIdx.filterMap
    fun ((label, coefficient), column) =>
      if roundingError < coefficient then some (column, label, coefficient) else none

/-- The row solved for the non-basic variable of a column, which trades places with the
variable of the row. -/
def solvedFor (row : DictionaryRow R) (column label : Nat) (pivot : R) : DictionaryRow R :=
  { label := label
    constant := -row.constant / pivot
    coefficients := (row.coefficients.map fun coefficient => -coefficient / pivot).setIfInBounds
      column (1 / pivot) }

/-- The row with the non-basic variable of a column replaced by what it stands for. -/
def substitute (row : DictionaryRow R) (column : Nat) (entering : DictionaryRow R) :
    DictionaryRow R :=
  let factor := row.coefficients.getD column 0
  if Number.same factor 0 then row
  else
    let sums := row.coefficients.zipWith (fun own other => own + factor * other)
      entering.coefficients
    { row with
      constant := row.constant + factor * entering.constant
      coefficients := sums.setIfInBounds column (factor * entering.coefficients.getD column 0) }

end DictionaryRow

namespace Dictionary

/-- The dictionary in which all variables of the program are zero. -/
def ofProgram (program : LinearProgram R) : Dictionary R :=
  let count := program.unknowns
  let zeros : Array R := Array.replicate count 0
  let slacks := program.constraints.zipIdx.map fun (constraint, position) =>
    { label := count + position
      constant := -constraint.bound
      coefficients := constraint.coefficients.foldl
        (fun row (index, coefficient) => row.setIfInBounds index coefficient) zeros }
  let limits := (List.range count).map fun index =>
    { label := count + program.constraints.length + index
      constant := 1
      coefficients := zeros.setIfInBounds index (-1) }
  { columns := Array.range count
    costs := Array.replicate count 1
    rows := slacks ++ limits }

/-- Of the columns that can raise a variable, the one that costs least for what it does; of
equally good ones, the one with the smallest label. -/
def cheapest? (dictionary : Dictionary R) (row : DictionaryRow R) : Option (Nat × Nat × R) :=
  let choices := (row.raising dictionary.columns).map fun (column, label, coefficient) =>
    (dictionary.costs.getD column 0 / coefficient, column, label, coefficient)
  let best? := choices.foldl (fun best? choice =>
    match best? with
    | none => some choice
    | some best =>
      if choice.1 < best.1 || (Number.same choice.1 best.1 && choice.2.2.1 < best.2.2.1)
      then some choice else best?) none
  best?.map (·.2)

/-- The negative row with the smallest label that some column can raise, with that column, its
label and its coefficient. -/
def pivot? (dictionary : Dictionary R) : Option (DictionaryRow R × Nat × Nat × R) :=
  let negative := dictionary.rows.filter (·.isNegative)
  (negative.mergeSort fun first second => first.label ≤ second.label).findSome? fun row =>
    (dictionary.cheapest? row).map fun entry => (row, entry)

/-- Exchanges the variable of a row with the non-basic variable of a column. -/
def exchange (dictionary : Dictionary R) (leaving : DictionaryRow R) (column label : Nat)
    (pivot : R) : Dictionary R :=
  let entering := leaving.solvedFor column label pivot
  let factor := dictionary.costs.getD column 0
  let costs := dictionary.costs.zipWith (fun own other => own + factor * other)
    entering.coefficients
  { columns := dictionary.columns.setIfInBounds column leaving.label
    costs := costs.setIfInBounds column (factor * entering.coefficients.getD column 0)
    rows := dictionary.rows.map fun row =>
      if row.label = leaving.label then entering else row.substitute column entering }

/-- Exchanges variables until no negative row can be raised or the steps are used up. -/
def improve : Nat → Dictionary R → Option (Dictionary R)
  | 0, _ => none
  | steps + 1, dictionary =>
    match dictionary.pivot? with
    | none => some dictionary
    | some (row, column, label, pivot) =>
      improve steps (dictionary.exchange row column label pivot)

/-- The values of the first `count` variables. -/
def values (dictionary : Dictionary R) (count : Nat) : Array R :=
  dictionary.rows.foldl (fun values row => values.setIfInBounds row.label row.constant)
    (Array.replicate count 0)

end Dictionary

namespace LinearProgram

/-- A bound on the number of exchanges, far above what is needed in practice. -/
def exchangeLimit (program : LinearProgram R) : Nat :=
  1000 + 100 * (program.unknowns + program.constraints.length)

def simplex : Solver R := fun program =>
  ((Dictionary.ofProgram program).improve program.exchangeLimit).bind fun dictionary =>
    if dictionary.rows.any (·.constant < -feasibilityTolerance) then none
    else some (dictionary.values program.unknowns)

end LinearProgram

end MarkovDecision
