import Mathlib.Algebra.BigOperators.Fin
import Mathlib.Algebra.Order.BigOperators.Group.Finset
import MarkovDecision.LinearProgram.Basic
import MarkovDecision.Proofs.LinearProgram.Elimination
import MarkovDecision.Proofs.Numbers

/-!
# Solvable programs have optima

A feasible program over the rationals has an optimal assignment.  The program is written as a
system of inequalities with one further variable, which bounds the objective from above; the
least value of that variable belongs to an optimal assignment.

Solvers are judged by what they answer to a program.  `Solver.ReturnsOptimum` says that an answer
is optimal, and `Solver.FindsOptimum` that there is an answer if there is an optimal assignment.
-/

namespace MarkovDecision

open Inequality

namespace Constraint

theorem combination_eq_sum (constraint : Constraint Rat) (values : Nat → Rat) :
    constraint.combination values =
      (constraint.coefficients.map fun entry => entry.2 * values entry.1).sum := by
  have fromZero := foldl_add_eq_add_sum
    (constraint.coefficients.map fun entry => entry.2 * values entry.1) 0
  rw [zero_add] at fromZero
  exact fromZero

/-- The coefficient of a variable, summed over its occurrences. -/
def coefficient (constraint : Constraint Rat) (index : Nat) : Rat :=
  (constraint.coefficients.map fun entry => if entry.1 = index then entry.2 else 0).sum

theorem combination_eq_sum_coefficient (constraint : Constraint Rat) {unknowns : Nat}
    (inRange : ∀ entry ∈ constraint.coefficients, entry.1 < unknowns) (values : Nat → Rat) :
    constraint.combination values =
      ∑ index : Fin unknowns, constraint.coefficient index * values index := by
  rw [combination_eq_sum]
  unfold coefficient
  generalize constraint.coefficients = entries at inRange
  induction entries with
  | nil => simp
  | cons entry entries ih =>
      have entryLt : entry.1 < unknowns := inRange entry (by simp)
      have own : ∑ index : Fin unknowns, (if entry.1 = index then entry.2 else 0) * values index =
          entry.2 * values entry.1 := by
        rw [Finset.sum_eq_single ⟨entry.1, entryLt⟩]
        · simp
        · intro index _ other
          rw [if_neg fun same => other (Fin.ext same.symm), zero_mul]
        · simp
      simp only [List.map_cons, List.sum_cons, add_mul, Finset.sum_add_distrib]
      rw [own, ih fun other member => inRange other (List.mem_cons_of_mem entry member)]

end Constraint

namespace LinearProgram

/-- Constraints mention variables of the program only. -/
def WellIndexed (program : LinearProgram Rat) : Prop :=
  ∀ constraint ∈ program.constraints, ∀ entry ∈ constraint.coefficients,
    entry.1 < program.unknowns

/-- The constraints can be checked on a list of their coefficients and bounds. -/
theorem forall_holds_iff {program : LinearProgram Rat} {rows : List (List (Nat × Rat) × Rat)}
    (rowsEq : program.constraints.map (fun constraint =>
      (constraint.coefficients, constraint.bound)) = rows) (values : Nat → Rat) :
    (∀ constraint ∈ program.constraints, constraint.Holds values) ↔
      ∀ row ∈ rows, (⟨row.1, row.2⟩ : Constraint Rat).Holds values := by
  simp [← rowsEq]

theorem objective_eq_sum (program : LinearProgram Rat) (values : Nat → Rat) :
    program.objective values = ∑ index : Fin program.unknowns, values index := by
  have fromZero := foldl_add_eq_add_sum ((List.range program.unknowns).map values) 0
  rw [zero_add] at fromZero
  have listed : ((List.range program.unknowns).map values).sum =
      ∑ index : Fin program.unknowns, values index := by
    rw [← List.sum_ofFn]
    congr 1
    apply List.ext_getElem <;> simp
  exact fromZero.trans listed

theorem objective_of_single {program : LinearProgram Rat} (single : program.unknowns = 1)
    (values : Nat → Rat) : program.objective values = values 0 := by
  rw [objective, single]
  simp [List.range_succ]

theorem assignment_ofFn {count : Nat} (values : Fin count → Rat) (index : Fin count) :
    assignment (Array.ofFn values) index = values index := by
  simp [assignment]

/-- The values of the variables, followed by a bound on the objective. -/
def withCeiling (program : LinearProgram Rat) (values : Nat → Rat) (ceiling : Rat) :
    Fin (program.unknowns + 1) → Rat :=
  Fin.snoc (α := fun _ => Rat) (fun index : Fin program.unknowns => values index) ceiling

/-- An inequality over the variables of a program and the bound on its objective. -/
def inequality (program : LinearProgram Rat) (coefficients : Nat → Rat) (ceiling bound : Rat) :
    Inequality (program.unknowns + 1) :=
  ⟨program.withCeiling coefficients ceiling, bound⟩

theorem holds_inequality_iff (program : LinearProgram Rat) (coefficients : Nat → Rat)
    (factor bound : Rat) (values : Nat → Rat) (ceiling : Rat) :
    (program.inequality coefficients factor bound).Holds (program.withCeiling values ceiling) ↔
      bound ≤ ∑ index : Fin program.unknowns, coefficients index * values index +
        factor * ceiling := by
  simp [inequality, Holds, withCeiling, Fin.sum_univ_castSucc]

def constraintRow (program : LinearProgram Rat) (constraint : Constraint Rat) :
    Inequality (program.unknowns + 1) :=
  program.inequality constraint.coefficient 0 constraint.bound

/-- The inequality by which a variable is at least zero. -/
def lowerRow (program : LinearProgram Rat) (index : Fin program.unknowns) :
    Inequality (program.unknowns + 1) :=
  program.inequality (fun other => if other = index then 1 else 0) 0 0

/-- The inequality by which a variable is at most one. -/
def upperRow (program : LinearProgram Rat) (index : Fin program.unknowns) :
    Inequality (program.unknowns + 1) :=
  program.inequality (fun other => if other = index then -1 else 0) 0 (-1)

/-- The inequality by which the last variable is above the objective. -/
def ceilingRow (program : LinearProgram Rat) : Inequality (program.unknowns + 1) :=
  program.inequality (fun _ => -1) 1 0

/-- The program as a system of inequalities, with a last variable that is above the objective. -/
def system (program : LinearProgram Rat) : List (Inequality (program.unknowns + 1)) :=
  program.ceilingRow :: (program.constraints.map program.constraintRow ++
    (List.finRange program.unknowns).flatMap fun index =>
      [program.lowerRow index, program.upperRow index])

/-- The system says that the assignment is feasible and that its objective is below the last
variable. -/
theorem system_holds_iff (program : LinearProgram Rat) (inRange : program.WellIndexed)
    (values : Nat → Rat) (ceiling : Rat) :
    (∀ row ∈ program.system, row.Holds (program.withCeiling values ceiling)) ↔
      program.Feasible values ∧ program.objective values ≤ ceiling := by
  have single (factor : Rat) (index : Fin program.unknowns) :
      ∑ other : Fin program.unknowns, (if (other : Nat) = index then factor else 0) * values other =
        factor * values index := by
    rw [Finset.sum_eq_single index]
    · simp
    · intro other _ different
      rw [if_neg fun same => different (Fin.ext same), zero_mul]
    · simp
  have constraintIff : ∀ constraint ∈ program.constraints,
      ((program.constraintRow constraint).Holds (program.withCeiling values ceiling) ↔
        constraint.Holds values) := by
    intro constraint member
    rw [constraintRow, holds_inequality_iff, Constraint.Holds,
      constraint.combination_eq_sum_coefficient (inRange constraint member), zero_mul, add_zero]
  have lowerIff (index : Fin program.unknowns) :
      (program.lowerRow index).Holds (program.withCeiling values ceiling) ↔
        0 ≤ values index := by
    rw [lowerRow, holds_inequality_iff, single, one_mul, zero_mul, add_zero]
  have upperIff (index : Fin program.unknowns) :
      (program.upperRow index).Holds (program.withCeiling values ceiling) ↔
        values index ≤ 1 := by
    rw [upperRow, holds_inequality_iff, single, zero_mul, add_zero, neg_one_mul, neg_le_neg_iff]
  have ceilingIff : program.ceilingRow.Holds (program.withCeiling values ceiling) ↔
      program.objective values ≤ ceiling := by
    rw [ceilingRow, holds_inequality_iff, objective_eq_sum, one_mul, ← Finset.mul_sum, neg_one_mul,
      neg_add_eq_sub, sub_nonneg]
  constructor
  · intro holds
    refine ⟨⟨?_, ?_⟩, ceilingIff.mp (holds _ List.mem_cons_self)⟩
    · intro index indexLt
      have boxRow : ∀ row ∈ [program.lowerRow ⟨index, indexLt⟩, program.upperRow ⟨index, indexLt⟩],
          row ∈ program.system := fun row isRow =>
        List.mem_cons_of_mem _ (List.mem_append_right _
          (List.mem_flatMap.mpr ⟨⟨index, indexLt⟩, List.mem_finRange _, isRow⟩))
      have lower := (lowerIff ⟨index, indexLt⟩).mp (holds _ (boxRow _ (by simp)))
      have upper := (upperIff ⟨index, indexLt⟩).mp (holds _ (boxRow _ (by simp)))
      exact ⟨lower, upper⟩
    · intro constraint member
      refine (constraintIff constraint member).mp (holds _ ?_)
      exact List.mem_cons_of_mem _ (List.mem_append_left _
        (List.mem_map.mpr ⟨constraint, member, rfl⟩))
  · rintro ⟨⟨box, meets⟩, below⟩ row member
    rcases List.mem_cons.mp member with isCeiling | member
    · exact isCeiling ▸ ceilingIff.mpr below
    rcases List.mem_append.mp member with fromConstraint | fromBox
    · obtain ⟨constraint, constraintMem, rfl⟩ := List.mem_map.mp fromConstraint
      exact (constraintIff constraint constraintMem).mpr (meets constraint constraintMem)
    · obtain ⟨index, -, isRow⟩ := List.mem_flatMap.mp fromBox
      rcases List.mem_pair.mp isRow with isLower | isUpper
      · exact isLower ▸ (lowerIff index).mpr (box index index.isLt).1
      · exact isUpper ▸ (upperIff index).mpr (box index index.isLt).2

/-- A feasible program has an optimal assignment, listed by an array. -/
theorem exists_optimal (program : LinearProgram Rat) (inRange : program.WellIndexed)
    (solvable : ∃ values, program.Feasible values) :
    ∃ solution : Array Rat, program.Optimal (assignment solution) := by
  have spread (row : Fin (program.unknowns + 1) → Rat) :
      program.withCeiling (assignment (Array.ofFn fun index : Fin program.unknowns =>
        row index.castSucc)) (row (Fin.last program.unknowns)) = row := by
    funext index
    refine Fin.lastCases ?_ (fun index => ?_) index
    · simp [withCeiling]
    · simp only [withCeiling, Fin.snoc_castSucc]
      exact assignment_ofFn (fun index : Fin program.unknowns => row index.castSucc) index
  obtain ⟨start, startFeasible⟩ := solvable
  obtain ⟨row, rowHolds, isLeast⟩ := exists_least_last program.system
    ⟨program.withCeiling start (program.objective start),
      (program.system_holds_iff inRange _ _).mpr ⟨startFeasible, le_refl _⟩⟩ 0 (by
      intro row holds
      rw [← spread row, program.system_holds_iff inRange] at holds
      obtain ⟨feasible, below⟩ := holds
      rw [objective_eq_sum] at below
      refine le_trans (Finset.sum_nonneg ?_) below
      intro index _
      exact (feasible.1 index index.isLt).1)
  rw [← spread row, program.system_holds_iff inRange] at rowHolds
  refine ⟨_, rowHolds.1, fun others othersFeasible => rowHolds.2.trans ?_⟩
  have least := isLeast (program.withCeiling others (program.objective others))
    ((program.system_holds_iff inRange _ _).mpr ⟨othersFeasible, le_refl _⟩)
  simpa [withCeiling] using least

end LinearProgram

namespace Solver

open LinearProgram

/-- What the solver answers to a program is an optimal assignment. -/
def ReturnsOptimum (solver : Solver Rat) (program : LinearProgram Rat) : Prop :=
  ∀ solution, solver program = some solution → program.Optimal (assignment solution)

/-- The solver answers a program with an optimal assignment if there is one. -/
def FindsOptimum (solver : Solver Rat) (program : LinearProgram Rat) : Prop :=
  (∃ solution : Array Rat, program.Optimal (assignment solution)) →
    ∃ solution, solver program = some solution ∧ program.Optimal (assignment solution)

theorem FindsOptimum.exists_solution {solver : Solver Rat} {program : LinearProgram Rat}
    (finds : solver.FindsOptimum program) (inRange : program.WellIndexed)
    (solvable : ∃ values, program.Feasible values) :
    ∃ solution, solver program = some solution ∧ program.Optimal (assignment solution) :=
  finds (program.exists_optimal inRange solvable)

end Solver

end MarkovDecision
