import MarkovDecision.LinearProgram.Simplex
import MarkovDecision.Closure

/-!
# Programs that fall into components

A constraint with a single positive coefficient bounds that variable from below by a combination
of others, so the smallest solution can be found one group of mutually dependent variables at a
time, once the groups they depend on are known.  `LinearProgram.solve` does so where every
constraint has at most one positive coefficient and takes the whole program at once otherwise.
-/

namespace MarkovDecision

variable {R : Type} [Number R]

namespace Constraint

def raised (constraint : Constraint R) : List (Nat × R) :=
  constraint.coefficients.filter fun entry => 0 < entry.2

def scaled (constraint : Constraint R) (factor : R) : Constraint R :=
  { coefficients := constraint.coefficients.map fun (index, coefficient) =>
      (index, coefficient / factor)
    bound := constraint.bound / factor }

/-- The constraint on the members of a component, renumbered by their position, with the values
known so far put in for other variables. -/
def restricted (constraint : Constraint R) (positions : Std.TreeMap Nat Nat) (known : Array R) :
    Constraint R :=
  { coefficients := constraint.coefficients.filterMap fun (index, coefficient) =>
      positions[index]?.map fun position => (position, coefficient)
    bound := constraint.coefficients.foldl (fun bound (index, coefficient) =>
      if positions.contains index then bound
      else bound - coefficient * LinearProgram.assignment known index) constraint.bound }

end Constraint

namespace LinearProgram

/-- Whether the program has a smallest solution that components determine. -/
def isTriangular (program : LinearProgram R) : Bool :=
  program.constraints.all fun constraint => constraint.raised.length ≤ 1

/-- The constraints that bound each variable from below, scaled to coefficient one. -/
def lowerBounds (program : LinearProgram R) : Std.TreeMap Nat (List (Constraint R)) :=
  program.constraints.foldl (fun table constraint =>
    match constraint.raised with
    | [(index, coefficient)] =>
      table.alter index fun constraints? =>
        some (constraint.scaled coefficient :: constraints?.getD [])
    | _ => table) ∅

/-- The variables that occur in a list of constraints. -/
def occurring (constraints : List (Constraint R)) : List Nat :=
  constraints.flatMap fun constraint => constraint.coefficients.map (·.1)

/-- Groups of mutually dependent variables, each behind the groups that it depends on.

A group depends on fewer variables than those that depend on it, so the groups are ordered by
the number of variables that they depend on. -/
def components (count : Nat) (dependencies : Nat → List Nat) : List (List Nat) :=
  let reached := (Array.range count).map fun index => closure dependencies count [index]
  let depends (first second : Nat) : Bool := (reached.getD first ∅).contains second
  let keyed := (List.range count).map fun index =>
    let set := reached.getD index ∅
    let leader := (set.toList.find? fun other => depends other index).getD index
    ((set.size, leader), index)
  let groups : Std.TreeMap (Nat × Nat) (List Nat) (fun first second =>
      (compare first.1 second.1).then (compare first.2 second.2)) :=
    keyed.foldl (fun groups (key, index) =>
      groups.alter key fun members? => some (index :: members?.getD [])) ∅
  groups.values

/-- Finds the values of one component from the values known so far. -/
def solveComponent (bounds : Std.TreeMap Nat (List (Constraint R))) (known : Array R)
    (members : List Nat) : Option (Array R) :=
  let positions : Std.TreeMap Nat Nat :=
    members.zipIdx.foldl (fun positions (index, position) => positions.insert index position) ∅
  let constraints := members.flatMap fun index => bounds.getD index []
  let program : LinearProgram R :=
    { unknowns := members.length
      constraints := constraints.map fun constraint => constraint.restricted positions known }
  (simplex program).map fun values =>
    members.zipIdx.foldl (fun known (index, position) =>
      known.setIfInBounds index (assignment values position)) known

/-- Whether an assignment meets the constraints up to the tolerance. -/
def isMet (program : LinearProgram R) (values : Array R) : Bool :=
  program.constraints.all fun constraint =>
    !(constraint.combination (assignment values) - constraint.bound < -feasibilityTolerance)

/-- Solves a program component by component where that is possible. -/
def solve : Solver R := fun program =>
  if program.isTriangular then
    let bounds := program.lowerBounds
    let groups := components program.unknowns fun index => occurring (bounds.getD index [])
    let solution? := groups.foldlM (solveComponent bounds) (Array.replicate program.unknowns 0)
    solution?.bind fun values => if program.isMet values then some values else none
  else simplex program

end LinearProgram

end MarkovDecision
