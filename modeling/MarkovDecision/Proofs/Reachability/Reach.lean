import MarkovDecision.Proofs.Reachability.Maximal
import MarkovDecision.LinearProgram.Components

/-!
# Maximal reachability probabilities

The values that `Model.reach` answers with are the greatest probabilities of reaching the targets:
the least upper bounds of the probabilities of reaching them within finitely many steps.  With a
solver that finds an optimum of the posted program there is an answer for every resolved model.
-/

namespace MarkovDecision

open Std (TreeMap TransOrd LawfulEqOrd)

theorem clampProbability_of_mem {value : Rat} (nonneg : 0 ≤ value) (atMostOne : value ≤ 1) :
    Model.clampProbability value = value := by
  have larger : Number.larger value 0 = value := by
    unfold Number.larger
    rcases nonneg.lt_or_eq with positive | isZero
    · exact if_pos positive
    · subst isZero
      rfl
  rw [Model.clampProbability, larger]
  unfold Number.smaller
  rcases atMostOne.lt_or_eq with less | isOne
  · exact if_pos less
  · subst isOne
    rfl

namespace Model

variable {S A : Type} [Ord S] [TransOrd S] [LawfulEqOrd S] [Ord A]
  {model : Model S A Rat} {targets : LabelSet S}

theorem WellFormed.getElem?_values (wellFormed : model.WellFormed) (solution : Array Rat)
    (box : ∀ index, index < (model.unsettled targets).length →
      0 ≤ LinearProgram.assignment solution index ∧ LinearProgram.assignment solution index ≤ 1)
    {state : S} (known : model.contains state = true) :
    (assembled (model.classify targets) solution).values[state]? =
      some (model.extend targets (LinearProgram.assignment solution) state) := by
  rw [getElem?_assembled, wellFormed.getElem?_classify, if_pos known, Option.map_some]
  apply congrArg some
  cases standing : model.classification targets state with
  | target =>
      rw [wellFormed.extend_of_target _ known standing]
      rfl
  | unreachable =>
      rw [wellFormed.extend_of_unreachable _ known standing]
      rfl
  | unknown =>
      obtain ⟨index, listed⟩ := wellFormed.exists_listed known standing
      obtain ⟨nonneg, atMostOne⟩ := box index (List.getElem?_eq_some_iff.mp listed).1
      have position := (getElem?_positions_iff nodup_unsettled state index).mpr listed
      rw [extend_of_listed _ listed, TreeMap.getD_eq_getD_getElem?]
      unfold unsettled at position
      rw [position]
      exact clampProbability_of_mem nonneg atMostOne

/-- Where every state is settled the program is empty, and all assignments are optimal. -/
theorem optimal_of_settled (noUnsettled : model.unsettled targets = []) (values : Nat → Rat) :
    (model.reachProgram (model.classify targets)).Optimal values := by
  refine ⟨⟨?_, ?_⟩, ?_⟩
  · intro index isVariable
    have inList : index < (model.unsettled targets).length := isVariable
    simp [noUnsettled] at inList
  · intro constraint member
    obtain ⟨state, index, listed, -⟩ := (mem_constraints_iff constraint).mp member
    rw [noUnsettled] at listed
    cases listed
  · intro others _
    rw [objective_reachProgram, objective_reachProgram, noUnsettled]
    exact le_refl _

/-- An answer that rests on an optimal solution holds the values that an optimal assignment stands
for. -/
theorem WellFormed.exists_optimal_of_reach_eq_ok (wellFormed : model.WellFormed)
    {solver : Solver Rat}
    (returns : solver.ReturnsOptimum (model.reachProgram (model.classify targets)))
    {reach : Reach S Rat} (answered : model.reach solver targets = .ok reach) :
    ∃ values, (model.reachProgram (model.classify targets)).Optimal values ∧
      ∀ state, model.contains state = true →
        reach.values[state]? = some (model.extend targets values state) := by
  obtain ⟨solution, origin, rfl⟩ := exists_solution_of_reach_eq_ok answered
  have optimal : (model.reachProgram (model.classify targets)).Optimal
      (LinearProgram.assignment solution) := by
    rcases origin with noUnsettled | solved
    · exact optimal_of_settled noUnsettled _
    · exact returns solution solved
  exact ⟨_, optimal, fun state known => wellFormed.getElem?_values solution optimal.1.1 known⟩

variable [TransOrd A]

/-- An answer that rests on an optimal solution gives every state the greatest probability of
reaching the targets. -/
theorem WellFormed.isLUB_of_reach_eq_ok (wellFormed : model.WellFormed)
    (resolved : model.Resolved) {solver : Solver Rat}
    (returns : solver.ReturnsOptimum (model.reachProgram (model.classify targets)))
    {reach : Reach S Rat} (answered : model.reach solver targets = .ok reach)
    {state : S} (known : model.contains state = true) :
    ∃ value, reach.values[state]? = some value ∧
      IsLUB (Set.range fun steps => model.horizonValue targets steps state) value := by
  obtain ⟨values, optimal, valuesEq⟩ :=
    wellFormed.exists_optimal_of_reach_eq_ok returns answered
  obtain ⟨super, smallest⟩ := wellFormed.supersolution_of_optimal resolved optimal
  exact ⟨_, valuesEq state known,
    super.isLUB wellFormed resolved.toSubstochastic smallest known⟩

/-- With a solver that finds an optimum, reachability is answered for every resolved model, and
each state has the greatest probability of reaching the targets. -/
theorem WellFormed.reach_isLUB_horizonValue (wellFormed : model.WellFormed)
    (resolved : model.Resolved) (targets : LabelSet S) {solver : Solver Rat}
    (finds : solver.FindsOptimum (model.reachProgram (model.classify targets))) :
    ∃ reach, model.reach solver targets = .ok reach ∧
      ∀ state, model.contains state = true → ∃ value, reach.values[state]? = some value ∧
        IsLUB (Set.range fun steps => model.horizonValue targets steps state) value := by
  obtain ⟨solution, solved, optimal⟩ := finds.exists_solution reachProgram_wellIndexed
    (wellFormed.exists_feasible resolved)
  have returns : solver.ReturnsOptimum (model.reachProgram (model.classify targets)) := by
    intro other otherSolved
    rw [solved] at otherSolved
    cases otherSolved
    exact optimal
  have answered : ∃ reach, model.reach solver targets = .ok reach := by
    unfold Model.reach
    dsimp only
    split
    · exact ⟨_, rfl⟩
    · rw [solved]
      exact ⟨_, rfl⟩
  obtain ⟨reach, reachEq⟩ := answered
  exact ⟨reach, reachEq, fun state known =>
    wellFormed.isLUB_of_reach_eq_ok resolved returns reachEq known⟩

/-- A state that may wait for ever or try once, with an even chance of coming to a target. -/
def waitOrTry : Model Nat Nat Rat :=
  ((empty.addTransition 0 0 1 (1 / 2) 0).addTransition 0 0 2 (1 / 2) 0).addTransition 0 1 0 1 0

theorem wellFormed_waitOrTry : waitOrTry.WellFormed :=
  ((wellFormed_empty.addTransition 0 0 1 (1 / 2) 0).addTransition 0 0 2 (1 / 2) 0).addTransition
    0 1 0 1 0

theorem resolved_waitOrTry : waitOrTry.Resolved :=
  wellFormed_waitOrTry.resolved_of_states (by decide +kernel)

/-- The program of `waitOrTry` has one variable, and waiting puts no constraint on it. -/
theorem reachProgram_waitOrTry :
    (waitOrTry.reachProgram (waitOrTry.classify {1})).unknowns = 1 ∧
      (waitOrTry.reachProgram (waitOrTry.classify {1})).constraints.length = 1 ∧
        ∀ constraint ∈ (waitOrTry.reachProgram (waitOrTry.classify {1})).constraints,
          constraint.coefficients = [(0, 1)] ∧ constraint.bound = 1 / 2 := by
  decide +kernel

theorem findsOptimum_waitOrTry :
    LinearProgram.solve.FindsOptimum (waitOrTry.reachProgram (waitOrTry.classify {1})) := by
  obtain ⟨unknownsEq, lengthEq, constraintEq⟩ := reachProgram_waitOrTry
  have solved : LinearProgram.solve (waitOrTry.reachProgram (waitOrTry.classify {1})) =
      some #[1 / 2] := by
    decide +kernel
  generalize waitOrTry.reachProgram (waitOrTry.classify {1}) = program at *
  have holdsIff {constraint : Constraint Rat} (member : constraint ∈ program.constraints)
      (values : Nat → Rat) : constraint.Holds values ↔ 1 / 2 ≤ values 0 := by
    obtain ⟨coefficientsEq, boundEq⟩ := constraintEq constraint member
    simp [Constraint.Holds, Constraint.combination, coefficientsEq, boundEq]
  refine fun _ => ⟨#[1 / 2], solved, ⟨?_, ?_⟩, ?_⟩
  · intro index indexLt
    have isFirst : index = 0 := by omega
    subst isFirst
    norm_num [LinearProgram.assignment]
  · intro constraint member
    rw [holdsIff member]
    norm_num [LinearProgram.assignment]
  · intro others feasible
    obtain ⟨constraint, member⟩ : ∃ constraint, constraint ∈ program.constraints :=
      List.exists_mem_of_length_pos (by omega)
    rw [LinearProgram.objective_of_single unknownsEq, LinearProgram.objective_of_single unknownsEq]
    exact (holdsIff member others).mp (feasible.2 constraint member)

/-- The theorem at work on a model with an end component. -/
theorem reach_isLUB_horizonValue_waitOrTry :
    waitOrTry.WellFormed ∧ waitOrTry.Resolved ∧
      LinearProgram.solve.FindsOptimum (waitOrTry.reachProgram (waitOrTry.classify {1})) ∧
      ∃ reach, waitOrTry.reach LinearProgram.solve {1} = .ok reach ∧
        ∀ state, waitOrTry.contains state = true →
          ∃ value, reach.values[state]? = some value ∧
            IsLUB (Set.range fun steps => waitOrTry.horizonValue {1} steps state) value :=
  ⟨wellFormed_waitOrTry, resolved_waitOrTry, findsOptimum_waitOrTry,
    wellFormed_waitOrTry.reach_isLUB_horizonValue resolved_waitOrTry {1} findsOptimum_waitOrTry⟩

end Model

end MarkovDecision
