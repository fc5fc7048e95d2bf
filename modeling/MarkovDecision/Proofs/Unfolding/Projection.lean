import MarkovDecision.Proofs.Guarantee.Percentile

/-!
# Projecting an unfolding to its model

Forgetting the value takes a run of the unfolded model to a run of the model, except where the
unfolding goes to `bottom`.  So no pair succeeds with a greater probability than its state comes
to a target.  Nothing is given up where every value is within the budget for ever: then the pairs
that are dropped are those from which no target is reached anyway.
-/

namespace MarkovDecision

open Std (TreeMap TransOrd LawfulEqOrd)

variable {S A : Type} [Ord S] [Ord A]

namespace Model

/-- No transition of a state outside the targets changes the value. -/
def KeepsValue (model : Model S A Rat) (targets : LabelSet S) : Prop :=
  ∀ state, ¬targets.contains state = true → ∀ transition ∈ model.outgoing state,
    transition.weight = 0

variable [TransOrd S] [LawfulEqOrd S] [TransOrd A] {model : Model S A Rat} {targets : LabelSet S}

/-- With a step left, a state that is not a target is worth the greatest sum over the transitions
of an action. -/
theorem horizonValue_succ_eq_sums (model : Model S A Rat) {state : S}
    (noTarget : ¬targets.contains state = true) (steps : Nat) :
    model.horizonValue targets (steps + 1) state =
      greatest ((model.actions state).toList.map fun offer =>
        (((model.outgoing state).filter (·.isUnder offer.1)).map fun transition =>
          transition.probability * model.horizonValue targets steps transition.target).sum) := by
  rw [horizonValue_succ_of_not_target model noTarget]
  congr 1
  apply List.map_congr_left
  intro offer offered
  exact expected_actions model (ActionTable.getElem?_of_mem offered) _

theorem KeepsValue.budgetValue_eq_horizonValue (keepsValue : model.KeepsValue targets)
    (wellFormed : model.WellFormed) {bound value : Rat} (within : bound ≤ value) (steps : Nat)
    (state : S) :
    model.budgetValue targets bound steps state value = model.horizonValue targets steps state := by
  induction steps generalizing state with
  | zero =>
      by_cases isTarget : targets.contains state = true
      · rw [budgetValue_of_target model bound isTarget, if_pos within,
          horizonValue_of_target model isTarget]
      · rw [budgetValue_zero_of_not_target model bound isTarget,
          horizonValue_zero_of_not_target model isTarget]
  | succ steps ih =>
      by_cases isTarget : targets.contains state = true
      · rw [budgetValue_of_target model bound isTarget, if_pos within,
          horizonValue_of_target model isTarget]
      · rw [wellFormed.budgetValue_succ_of_not_target bound isTarget,
          horizonValue_succ_eq_sums model isTarget]
        congr 1
        apply List.map_congr_left
        intro offer _
        rw [actionShare]
        congr 1
        apply List.map_congr_left
        intro transition taken
        rw [keepsValue state isTarget transition (List.mem_of_mem_filter taken), add_zero, ih]

end Model

namespace Unfolding

variable [TransOrd S] [LawfulEqOrd S] [TransOrd A] {model : Model S A Rat} {targets : LabelSet S}
  {keep : S → Rat → Bool} {source : S} {initialValue : Rat} {unfolding : Unfolding S A Rat}

section Product

variable (product : IsProduct model targets keep source initialValue unfolding)
  (wellFormed : model.WellFormed) (respects : RespectsKeys keep)
include product wellFormed respects

/-- A pair comes to a target of the unfolded model with no greater probability than its state
comes to a target of the model. -/
theorem IsProduct.horizonValue_le_state (proper : model.Substochastic) (steps : Nat) {state : S}
    {value : Rat} (isKept : KeptPair model targets keep source initialValue state value) :
    unfolding.model.horizonValue unfolding.targets steps (.pair state value) ≤
      model.horizonValue targets steps state := by
  induction steps generalizing state value with
  | zero =>
      by_cases isTarget : targets.contains state = true
      · rw [product.horizonValue_of_target isKept isTarget,
          Model.horizonValue_of_target model isTarget]
      · rw [product.horizonValue_zero isKept isTarget]
        exact proper.horizonValue_nonneg targets 0 state
  | succ steps ih =>
      by_cases isTarget : targets.contains state = true
      · rw [product.horizonValue_of_target isKept isTarget,
          Model.horizonValue_of_target model isTarget]
      · rw [product.horizonValue_succ isKept isTarget wellFormed respects,
          Model.horizonValue_succ_eq_sums model isTarget]
        apply greatest_map_le
        intro offer _
        apply List.sum_le_sum
        intro transition taken
        have leaves := List.mem_of_mem_filter taken
        apply mul_le_mul_of_nonneg_left _ (proper.transition_nonneg wellFormed leaves)
        unfold destination
        split
        · rename_i kept
          exact ih (KeptPair.step isKept isTarget leaves kept)
        · -- What is dropped counts nothing in the unfolded model, whatever it may be worth.
          rw [product.horizonValue_bottom]
          exact proper.horizonValue_nonneg targets steps transition.target

/-- Where nothing of worth is dropped, a pair is worth as much as its state. -/
theorem IsProduct.horizonValue_eq_state
    (dropsWorthless : ∀ {state value}, KeptPair model targets keep source initialValue state value →
      ¬targets.contains state = true → ∀ transition ∈ model.outgoing state,
        ¬keep transition.target (value + transition.weight) = true →
          ∀ steps, model.horizonValue targets steps transition.target = 0)
    (steps : Nat) {state : S} {value : Rat}
    (isKept : KeptPair model targets keep source initialValue state value) :
    unfolding.model.horizonValue unfolding.targets steps (.pair state value) =
      model.horizonValue targets steps state := by
  induction steps generalizing state value with
  | zero =>
      by_cases isTarget : targets.contains state = true
      · rw [product.horizonValue_of_target isKept isTarget,
          Model.horizonValue_of_target model isTarget]
      · rw [product.horizonValue_zero isKept isTarget,
          Model.horizonValue_zero_of_not_target model isTarget]
  | succ steps ih =>
      by_cases isTarget : targets.contains state = true
      · rw [product.horizonValue_of_target isKept isTarget,
          Model.horizonValue_of_target model isTarget]
      · rw [product.horizonValue_succ isKept isTarget wellFormed respects,
          Model.horizonValue_succ_eq_sums model isTarget]
        congr 1
        apply List.map_congr_left
        intro offer _
        rw [stepShare]
        congr 1
        apply List.map_congr_left
        intro transition taken
        have leaves := List.mem_of_mem_filter taken
        congr 1
        unfold destination
        split
        · rename_i kept
          exact ih (KeptPair.step isKept isTarget leaves kept)
        · rename_i dropped
          rw [product.horizonValue_bottom, dropsWorthless isKept isTarget transition leaves dropped]

end Product

omit [TransOrd S] [LawfulEqOrd S] [Ord A] [TransOrd A] in
theorem KeptPair.value_eq (keepsValue : model.KeepsValue targets) {state : S} {value : Rat}
    (isKept : KeptPair model targets keep source initialValue state value) :
    value = initialValue := by
  induction isKept with
  | start => rfl
  | @step state value transition _ noTarget leaves _ ih =>
      rw [ih, keepsValue state noTarget transition leaves, add_zero]
  | same _ sameNode ih =>
      obtain ⟨-, sameValue⟩ := (UnfoldedState.compare_pair_eq_iff _ _ _ _).mp sameNode
      exact (Std.LawfulEqCmp.eq_of_compare sameValue).symm.trans ih

/-- Where the value never changes and starts within the budget, both pruning modes drop nothing
but states that no target is reached from. -/
theorem horizonValue_eq_zero_of_dropped (keepsValue : model.KeepsValue targets)
    (wellFormed : model.WellFormed) {bound value : Rat} (within : bound ≤ value)
    {pruning : Pruning} {remaining : Option (Distances S Rat)}
    (lossEq : remainingLoss model targets pruning = .ok remaining) {state : S}
    (known : model.contains state = true) (dropped : ¬keeps remaining bound state value = true)
    (steps : Nat) : model.horizonValue targets steps state = 0 := by
  cases pruning with
  | threshold =>
      cases lossEq
      exact (dropped (by simpa [keeps] using within)).elim
  | shortestPath =>
      rw [← keepsValue.budgetValue_eq_horizonValue wellFormed within]
      exact wellFormed.budgetValue_eq_zero lossEq steps known dropped

/-- The probability of success within a budget is at most the probability of coming to a target at
all.  For the first pair the two are the same where the value starts within the budget and no step
changes it. -/
theorem success_le_limitValue (wellFormed : model.WellFormed) (proper : model.Substochastic)
    {bound : Rat} {settings : UnfoldSettings Rat}
    (built : build model source targets bound settings = .ok unfolding) :
    (∀ state value, unfolding.model.contains (.pair state value) = true →
      unfolding.success (.pair state value) ≤ model.limitValue targets state) ∧
    (model.KeepsValue targets → bound ≤ settings.initialValue →
      unfolding.success unfolding.initial = model.limitValue targets source) := by
  obtain ⟨remaining, lossEq⟩ := exists_remainingLoss_of_build built
  have product := isProduct_of_build wellFormed lossEq built
  have respects : RespectsKeys (keeps remaining bound) := respectsKeys_keeps remaining bound
  constructor
  · intro state value known
    obtain ⟨_, _, sameNode, isKept⟩ := ((product.contains_iff _).mp known).resolve_left (by simp)
    cases sameNode
    apply ciSup_mono (proper.bddAbove_horizonValue targets state)
    intro steps
    exact_mod_cast product.horizonValue_le_state wellFormed respects proper steps isKept
  · intro keepsValue within
    have dropsWorthless {state : S} {value : Rat}
        (isKept : KeptPair model targets (keeps remaining bound) source settings.initialValue state
          value)
        (noTarget : ¬targets.contains state = true) (transition : Transition S A Rat)
        (leaves : transition ∈ model.outgoing state)
        (dropped : ¬keeps remaining bound transition.target (value + transition.weight) = true)
        (steps : Nat) : model.horizonValue targets steps transition.target = 0 := by
      refine horizonValue_eq_zero_of_dropped keepsValue wellFormed ?_ lossEq
        (wellFormed.closed state transition leaves) dropped steps
      rw [isKept.value_eq keepsValue, keepsValue state noTarget transition leaves, add_zero]
      exact within
    rw [product.initial_eq, success, Model.limitValue, Model.limitValue]
    simp only [product.horizonValue_eq_state wellFormed respects dropsWorthless _ KeptPair.start]

/-- A toss that leads to the target or to a state without actions, at no cost. -/
def coinToss : Model Nat Nat Rat :=
  (Model.empty.addTransition 0 0 1 (1 / 2) 0).addTransition 0 0 2 (1 / 2) 0

theorem wellFormed_coinToss : coinToss.WellFormed :=
  (Model.wellFormed_empty.addTransition 0 0 1 (1 / 2) 0).addTransition 0 0 2 (1 / 2) 0

theorem resolved_coinToss : coinToss.Resolved :=
  wellFormed_coinToss.resolved_of_states (by decide +kernel)

theorem keepsValue_coinToss : coinToss.KeepsValue {1} := by
  have isFree := wellFormed_coinToss.forall_outgoing
    (show ∀ state ∈ coinToss.states.toList, ∀ transition ∈ coinToss.outgoing state,
      transition.weight = 0 by decide)
  exact fun state _ => isFree state

/-- The distances drop the state without actions, and the toss still succeeds as often as the
target is reached. -/
theorem success_le_limitValue_coinToss :
    ∃ unfolding, build coinToss 0 {1} 0 ⟨.shortestPath, 100, 0⟩ = .ok unfolding ∧
      ¬unfolding.model.contains (.pair 2 0) = true ∧
      unfolding.model.contains (.pair 1 0) = true ∧
      unfolding.success (.pair 1 0) ≤ coinToss.limitValue {1} 1 ∧
      unfolding.success unfolding.initial = coinToss.limitValue {1} 0 := by
  obtain ⟨unfolding, built⟩ := exists_eq_ok
    (show (build coinToss 0 {1} 0 ⟨.shortestPath, 100, 0⟩).isOk = true by decide +kernel)
  have facts : ∀ unfolding ∈ (build coinToss 0 {1} 0 ⟨.shortestPath, 100, 0⟩).toOption,
      ¬unfolding.model.contains (.pair 2 0) = true ∧
        unfolding.model.contains (.pair 1 0) = true := by decide +kernel
  obtain ⟨dropped, known⟩ := facts unfolding (mem_toOption_of_eq_ok built)
  obtain ⟨below, same⟩ := success_le_limitValue wellFormed_coinToss
    resolved_coinToss.toSubstochastic built
  exact ⟨unfolding, built, dropped, known, below 1 0 known,
    same keepsValue_coinToss (le_refl 0)⟩

end Unfolding

end MarkovDecision
