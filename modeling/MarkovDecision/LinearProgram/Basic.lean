import MarkovDecision.Number

/-!
# Linear programs

The linear programs of this library minimise the sum of variables that range from zero to one,
subject to lower bounds on linear combinations of them.  `LinearProgram.Feasible` and
`LinearProgram.Optimal` say what a solution is; a `Solver` is any function that claims to find
one.
-/

namespace MarkovDecision

/-- The requirement that a linear combination of variables reach a bound. -/
structure Constraint (R : Type) where
  /-- The variables that take part, in ascending order, with their coefficients. -/
  coefficients : List (Nat × R)
  bound : R

/-- A program over the variables `0, 1, …, unknowns - 1`. -/
structure LinearProgram (R : Type) where
  unknowns : Nat
  constraints : List (Constraint R)

variable {R : Type} [Number R]

namespace Constraint

def combination (constraint : Constraint R) (values : Nat → R) : R :=
  (constraint.coefficients.map fun (index, coefficient) => coefficient * values index).foldl
    (· + ·) 0

def Holds (constraint : Constraint R) (values : Nat → R) : Prop :=
  constraint.bound ≤ constraint.combination values

end Constraint

namespace LinearProgram

/-- An assignment of values from zero to one that meets every constraint. -/
def Feasible (program : LinearProgram R) (values : Nat → R) : Prop :=
  (∀ index, index < program.unknowns → 0 ≤ values index ∧ values index ≤ 1) ∧
    ∀ constraint ∈ program.constraints, constraint.Holds values

def objective (program : LinearProgram R) (values : Nat → R) : R :=
  ((List.range program.unknowns).map values).foldl (· + ·) 0

/-- A feasible assignment whose objective no other one undercuts. -/
def Optimal (program : LinearProgram R) (values : Nat → R) : Prop :=
  program.Feasible values ∧
    ∀ others, program.Feasible others → program.objective values ≤ program.objective others

/-- The assignment that lists the values of the variables in order. -/
def assignment (values : Array R) (index : Nat) : R :=
  values.getD index 0

end LinearProgram

/-- A method that answers a program with values for its variables, or with `none` when it finds
the program infeasible. -/
abbrev Solver (R : Type) : Type :=
  LinearProgram R → Option (Array R)

end MarkovDecision
