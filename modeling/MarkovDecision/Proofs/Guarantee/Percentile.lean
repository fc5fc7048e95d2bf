import MarkovDecision.Proofs.Reachability.Reach
import MarkovDecision.Proofs.Unfolding.Success
import MarkovDecision.Proofs.Guarantee.Answer

/-!
# The answer to the percentile question

The greatest probability of reaching a target with a value at or above the bound, by backward
induction on the number of steps of the model itself.  A pair that is pruned is worth nothing,
because the distances to the targets never promise more than a walk can keep; a pair that is kept
is worth as much in the unfolded model as in the model.  So the probability of success from the
start is the least upper bound of what finitely many steps can do.
-/

namespace MarkovDecision

open Std (TreeMap TransOrd LawfulEqOrd)

variable {S A : Type} [Ord S] [Ord A]

namespace Model

/-- The greatest probability of coming to a target within a number of steps, with a value that is
then at or above the bound. -/
def budgetValue (model : Model S A Rat) (targets : LabelSet S) (bound : Rat) :
    Nat → S → Rat → Rat
  | 0, state, value =>
    if targets.contains state then if bound ≤ value then 1 else 0
    else 0
  | steps + 1, state, value =>
    if targets.contains state then if bound ≤ value then 1 else 0
    else greatest ((model.actions state).toList.map fun offer =>
      expected offer.2 fun next => model.budgetValue targets bound steps next
        (value + (model.weight? state offer.1 (some next)).getD 0))

theorem budgetValue_of_target (model : Model S A Rat) {targets : LabelSet S} (bound : Rat)
    {state : S} (isTarget : targets.contains state = true) (steps : Nat) (value : Rat) :
    model.budgetValue targets bound steps state value = if bound ≤ value then 1 else 0 := by
  cases steps <;> rw [budgetValue, if_pos isTarget]

theorem budgetValue_zero_of_not_target (model : Model S A Rat) {targets : LabelSet S} (bound : Rat)
    {state : S} (noTarget : ¬targets.contains state = true) (value : Rat) :
    model.budgetValue targets bound 0 state value = 0 :=
  if_neg noTarget

/-- What an action of a state is worth with a value, when finitely many steps are left after it:
the sum over its transitions. -/
def actionShare (model : Model S A Rat) (targets : LabelSet S) (bound : Rat) (steps : Nat)
    (state : S) (value : Rat) (action : A) : Rat :=
  (((model.outgoing state).filter (·.isUnder action)).map fun transition =>
    transition.probability * model.budgetValue targets bound steps transition.target
      (value + transition.weight)).sum

variable [TransOrd S] [TransOrd A] {model : Model S A Rat}

variable [LawfulEqOrd S]

theorem WellFormed.budgetValue_succ_of_not_target (wellFormed : model.WellFormed)
    {targets : LabelSet S} (bound : Rat) {state : S}
    (noTarget : ¬targets.contains state = true) (steps : Nat) (value : Rat) :
    model.budgetValue targets bound (steps + 1) state value =
      greatest ((model.actions state).toList.map fun offer =>
        model.actionShare targets bound steps state value offer.1) := by
  rw [budgetValue, if_neg noTarget]
  congr 1
  apply List.map_congr_left
  intro offer offered
  rw [expected_actions model (ActionTable.getElem?_of_mem offered), actionShare]
  congr 1
  apply List.map_congr_left
  intro transition taken
  obtain ⟨leaves, isUnder⟩ := List.mem_filter.mp taken
  have joins : transition.Joins offer.1 transition.target :=
    ⟨(Transition.isUnder_eq_true_iff _ _).mp isUnder, Std.ReflCmp.compare_self⟩
  rw [weight?_some, wellFormed.transition?_of_mem leaves joins, Option.map_some, Option.getD_some]

/-- A pair that is pruned by the distances to the targets is worth nothing: no step leads from it
to a pair that is kept. -/
theorem WellFormed.budgetValue_eq_zero (wellFormed : model.WellFormed) {targets : LabelSet S}
    {remaining : Option (Distances S Rat)}
    (lossEq : Unfolding.remainingLoss model targets .shortestPath = .ok remaining)
    {bound : Rat} (steps : Nat) {state : S} (known : model.contains state = true) {value : Rat}
    (dropped : ¬Unfolding.keeps remaining bound state value = true) :
    model.budgetValue targets bound steps state value = 0 := by
  induction steps generalizing state value with
  | zero =>
      by_cases isTarget : targets.contains state = true
      · rw [Unfolding.keeps_target_iff wellFormed lossEq known isTarget] at dropped
        rw [budgetValue_of_target model bound isTarget, if_neg dropped]
      · exact budgetValue_zero_of_not_target model bound isTarget value
  | succ steps ih =>
      by_cases isTarget : targets.contains state = true
      · rw [Unfolding.keeps_target_iff wellFormed lossEq known isTarget] at dropped
        rw [budgetValue_of_target model bound isTarget, if_neg dropped]
      · obtain ⟨distances, measured, rfl⟩ := Unfolding.remainingLoss_shortestPath lossEq
        have nextDropped : ∀ transition ∈ model.outgoing state,
            ¬Unfolding.keeps (some distances) bound transition.target
              (value + transition.weight) = true :=
          fun transition leaves =>
            mt (Unfolding.keeps_of_step wellFormed measured leaves isTarget) dropped
        rw [wellFormed.budgetValue_succ_of_not_target bound isTarget]
        apply greatest_eq_zero
        intro share member
        obtain ⟨offer, -, rfl⟩ := List.mem_map.mp member
        apply List.sum_eq_zero
        intro part partMem
        obtain ⟨transition, taken, rfl⟩ := List.mem_map.mp partMem
        have leaves := List.mem_of_mem_filter taken
        rw [ih (wellFormed.closed state transition leaves) (nextDropped transition leaves),
          mul_zero]

end Model

namespace Unfolding

variable [TransOrd S] [LawfulEqOrd S] [TransOrd A] {model : Model S A Rat} {targets : LabelSet S}
  {source : S} {initialValue bound : Rat} {remaining : Option (Distances S Rat)}
  {unfolding : Unfolding S A Rat}

section Product

variable
  (product : IsProduct model targets (keeps remaining bound) source initialValue unfolding)
  (wellFormed : model.WellFormed)
include product

include wellFormed

theorem IsProduct.stepShare_eq_actionShare
    (lossEq : remainingLoss model targets .shortestPath = .ok remaining) {state : S} {value : Rat}
    {steps : Nat}
    (agree : ∀ transition ∈ model.outgoing state,
      keeps remaining bound transition.target (value + transition.weight) = true →
        unfolding.model.horizonValue unfolding.targets steps
          (.pair transition.target (value + transition.weight)) =
            model.budgetValue targets bound steps transition.target (value + transition.weight))
    (action : A) :
    stepShare model (keeps remaining bound) state value action
        (unfolding.model.horizonValue unfolding.targets steps) =
      model.actionShare targets bound steps state value action := by
  rw [stepShare, Model.actionShare]
  congr 1
  apply List.map_congr_left
  intro transition taken
  have leaves := List.mem_of_mem_filter taken
  congr 1
  unfold destination
  split
  · rename_i kept
    exact agree transition leaves kept
  · rename_i dropped
    -- The move is worth nothing on both sides.
    rw [product.horizonValue_bottom, wellFormed.budgetValue_eq_zero lossEq steps
      (wellFormed.closed state transition leaves) dropped]

/-- A pair succeeds in the unfolded model as its state does with its value in the model. -/
theorem IsProduct.horizonValue_pair
    (lossEq : remainingLoss model targets .shortestPath = .ok remaining)
    (fromOutside : ¬targets.contains source = true) (steps : Nat) {state : S} {value : Rat}
    (isKept :
      KeptPair model targets (keeps remaining bound) source initialValue state value) :
    unfolding.model.horizonValue unfolding.targets steps (.pair state value) =
      model.budgetValue targets bound steps state value := by
  have atTarget (steps : Nat) {state : S} {value : Rat}
      (isKept :
        KeptPair model targets (keeps remaining bound) source initialValue state value)
      (isTarget : targets.contains state = true) :
      unfolding.model.horizonValue unfolding.targets steps (.pair state value) =
        model.budgetValue targets bound steps state value := by
    have within := isKept.bound_le wellFormed lossEq fromOutside isTarget
    rw [product.horizonValue_of_target isKept isTarget,
      Model.budgetValue_of_target model bound isTarget, if_pos within]
  induction steps generalizing state value with
  | zero =>
      by_cases isTarget : targets.contains state = true
      · exact atTarget 0 isKept isTarget
      · rw [product.horizonValue_zero isKept isTarget,
          Model.budgetValue_zero_of_not_target model bound isTarget]
  | succ steps ih =>
      by_cases isTarget : targets.contains state = true
      · exact atTarget (steps + 1) isKept isTarget
      · rw [product.horizonValue_succ isKept isTarget wellFormed
            (respectsKeys_keeps remaining bound),
          wellFormed.budgetValue_succ_of_not_target bound isTarget]
        congr 1
        apply List.map_congr_left
        intro offer _
        apply product.stepShare_eq_actionShare wellFormed lossEq
        intro transition leaves kept
        exact ih (KeptPair.step isKept isTarget leaves kept)

end Product

end Unfolding

namespace Guarantee

/-- The linear program that is posted for an answer. -/
def posted (guarantee : Guarantee S A Rat) : LinearProgram Rat :=
  guarantee.unfolding.model.reachProgram
    (guarantee.unfolding.model.classify guarantee.unfolding.targets)

variable [TransOrd S] [LawfulEqOrd S] [TransOrd A] {model : Model S A Rat}

/-- The values that rest on an optimum of what is posted are least upper bounds of what finitely
many steps can do in the unfolded model. -/
theorem exists_value_of_answer (wellFormed : model.WellFormed) {solver : Solver Rat}
    {question : Question S Rat} {settings : UnfoldSettings Rat} {guarantee : Guarantee S A Rat}
    (answered : answer model solver question settings = .ok guarantee)
    (resolved : guarantee.unfolding.model.Resolved)
    (returns : solver.ReturnsOptimum guarantee.posted) {label : UnfoldedState S Rat}
    (known : guarantee.unfolding.model.contains label = true) :
    ∃ value, guarantee.values[label]? = some value ∧
      IsLUB (Set.range fun steps => guarantee.unfolding.model.horizonValue
        guarantee.unfolding.targets steps label) value := by
  obtain ⟨built, reach, reached, valuesEq, -⟩ := answer_eq_ok answered
  obtain ⟨remaining, lossEq⟩ := Unfolding.exists_remainingLoss_of_build built
  have product := Unfolding.isProduct_of_build wellFormed lossEq built
  rw [valuesEq]
  exact product.wellFormed.isLUB_of_reach_eq_ok resolved returns reached known

/-- The probability that is answered is the greatest probability of reaching a target with a value
at or above the bound: the least upper bound of what finitely many steps can do. -/
theorem answer_isLUB_budgetValue (wellFormed : model.WellFormed) (resolved : model.Resolved)
    {solver : Solver Rat} {question : Question S Rat} {settings : UnfoldSettings Rat}
    (byDistance : settings.pruning = .shortestPath)
    (fromOutside : ¬question.targets.contains question.source = true)
    {guarantee : Guarantee S A Rat}
    (answered : answer model solver question settings = .ok guarantee)
    (returns : solver.ReturnsOptimum guarantee.posted) :
    IsLUB (Set.range fun steps => model.budgetValue question.targets question.bound steps
      question.source settings.initialValue) guarantee.initialProbability := by
  obtain ⟨built, reach, reached, valuesEq, -⟩ := answer_eq_ok answered
  obtain ⟨remaining, lossEq⟩ := Unfolding.exists_remainingLoss_of_build built
  have product := Unfolding.isProduct_of_build wellFormed lossEq built
  rw [byDistance] at lossEq
  have isKept : Unfolding.KeptPair model question.targets
      (Unfolding.keeps remaining question.bound) question.source settings.initialValue
      question.source settings.initialValue := Unfolding.KeptPair.start
  have known := (product.contains_iff _).mpr (Or.inr ⟨_, _, rfl, isKept⟩)
  have respects : Unfolding.RespectsKeys (Unfolding.keeps remaining question.bound) :=
    Unfolding.respectsKeys_keeps remaining question.bound
  obtain ⟨value, found, isLUB⟩ := product.wellFormed.isLUB_of_reach_eq_ok
    (product.resolved wellFormed respects resolved) returns reached known
  have initialEq : guarantee.initialProbability = value := by
    rw [initialProbability, valuesEq, product.initial_eq, TreeMap.getD_eq_getD_getElem?, found,
      Option.getD_some]
  rw [initialEq]
  simpa only [product.horizonValue_pair wellFormed lossEq fromOutside _ isKept] using isLUB

/-- How probable it is that `tryAgain` comes to its target with at most three lost. -/
def loseThree : Question Nat Rat :=
  ⟨0, {1}, -3, 1 / 2⟩

def loseThreeGuarantee : Guarantee Nat Nat Rat :=
  (answer Unfolding.tryAgain LinearProgram.solve loseThree ⟨.shortestPath, 100, 0⟩).toOption.get
    (by decide +kernel)

theorem answer_loseThree :
    answer Unfolding.tryAgain LinearProgram.solve loseThree ⟨.shortestPath, 100, 0⟩ =
      .ok loseThreeGuarantee :=
  eq_ok_get _

theorem posted_loseThree {guarantee : Guarantee Nat Nat Rat}
    (answered : answer Unfolding.tryAgain LinearProgram.solve loseThree ⟨.shortestPath, 100, 0⟩ =
      .ok guarantee) :
    guarantee.posted.unknowns = 2 ∧
      guarantee.posted.constraints.map (fun constraint =>
        (constraint.coefficients, constraint.bound)) =
          [([(0, 1)], 1 / 2), ([(0, -1 / 2), (1, 1)], 1 / 2)] ∧
      LinearProgram.solve guarantee.posted = some #[1 / 2, 3 / 4] := by
  have facts : ∀ guarantee ∈ (answer Unfolding.tryAgain LinearProgram.solve loseThree
      ⟨.shortestPath, 100, 0⟩).toOption,
      guarantee.posted.unknowns = 2 ∧
        guarantee.posted.constraints.map (fun constraint =>
          (constraint.coefficients, constraint.bound)) =
            [([(0, 1)], 1 / 2), ([(0, -1 / 2), (1, 1)], 1 / 2)] ∧
        LinearProgram.solve guarantee.posted = some #[1 / 2, 3 / 4] := by
    decide +kernel
  exact facts guarantee (mem_toOption_of_eq_ok answered)

/-- The solver of this library finds the optimum: the second attempt succeeds with one half, and
the first with three quarters. -/
theorem returnsOptimum_loseThree {guarantee : Guarantee Nat Nat Rat}
    (answered : answer Unfolding.tryAgain LinearProgram.solve loseThree ⟨.shortestPath, 100, 0⟩ =
      .ok guarantee) : LinearProgram.solve.ReturnsOptimum guarantee.posted := by
  obtain ⟨unknownsEq, constraintsEq, solved⟩ := posted_loseThree answered
  generalize guarantee.posted = program at *
  have objectiveEq (values : Nat → Rat) : program.objective values = values 0 + values 1 := by
    rw [LinearProgram.objective, unknownsEq]
    simp [List.range_succ]
  have holdsIff (values : Nat → Rat) :
      (∀ constraint ∈ program.constraints, constraint.Holds values) ↔
        1 / 2 ≤ values 0 ∧ 1 / 2 ≤ -1 / 2 * values 0 + values 1 := by
    rw [LinearProgram.forall_holds_iff constraintsEq]
    simp [Constraint.Holds, Constraint.combination]
  intro solution answer
  rw [solved] at answer
  cases answer
  refine ⟨⟨?_, ?_⟩, ?_⟩
  · intro index indexLt
    have isFirst : index = 0 ∨ index = 1 := by omega
    rcases isFirst with rfl | rfl <;> norm_num [LinearProgram.assignment]
  · rw [holdsIff]
    norm_num [LinearProgram.assignment]
  · intro others feasible
    obtain ⟨second, first⟩ := (holdsIff others).mp feasible.2
    rw [objectiveEq, objectiveEq]
    norm_num [LinearProgram.assignment]
    linarith

/-- The theorem at work: `tryAgain` has time for two attempts. -/
theorem answer_isLUB_budgetValue_loseThree :
    Unfolding.tryAgain.WellFormed ∧ Unfolding.tryAgain.Resolved ∧
      ¬loseThree.targets.contains loseThree.source = true ∧
      ∃ guarantee, answer Unfolding.tryAgain LinearProgram.solve loseThree
          ⟨.shortestPath, 100, 0⟩ = .ok guarantee ∧
        LinearProgram.solve.ReturnsOptimum guarantee.posted ∧
        IsLUB (Set.range fun steps =>
          Unfolding.tryAgain.budgetValue loseThree.targets loseThree.bound steps
            loseThree.source 0) guarantee.initialProbability := by
  have wellFormed := Unfolding.wellFormed_tryAgain
  have resolved : Unfolding.tryAgain.Resolved := wellFormed.resolved_of_states (by decide +kernel)
  have fromOutside : ¬loseThree.targets.contains loseThree.source = true := by decide +kernel
  obtain ⟨guarantee, answered⟩ := exists_eq_ok (show (answer Unfolding.tryAgain
    LinearProgram.solve loseThree ⟨.shortestPath, 100, 0⟩).isOk = true by decide +kernel)
  have returns := returnsOptimum_loseThree answered
  exact ⟨wellFormed, resolved, fromOutside, guarantee, answered, returns,
    answer_isLUB_budgetValue wellFormed resolved rfl fromOutside answered returns⟩

end Guarantee

end MarkovDecision
