import Mathlib.Tactic.NormNum
import MarkovDecision.Proofs.Expectation
import MarkovDecision.Proofs.Model.Connectivity
import MarkovDecision.Reachability

/-!
# Reaching targets within a number of steps

The greatest probability of reaching the targets within finitely many steps, by backward
induction on the number of steps.  It grows with the number of steps and stays a probability, so
it has a least upper bound, which is the greatest probability of reaching the targets at all.
-/

namespace MarkovDecision

open Std (TreeMap TransOrd LawfulEqOrd)

variable {S A : Type} [Ord S] [Ord A]

namespace Model

/-- The greatest probability of coming to a target within a number of steps. -/
def horizonValue (model : Model S A Rat) (targets : LabelSet S) : Nat → S → Rat
  | 0, state => if targets.contains state then 1 else 0
  | steps + 1, state =>
    if targets.contains state then 1
    else greatest ((model.actions state).toList.map fun offer =>
      expected offer.2 (model.horizonValue targets steps))

/-- The probabilities of every action are non-negative and sum to at most one. -/
structure Substochastic (model : Model S A Rat) : Prop where
  nonneg : ∀ state, ∀ offer ∈ (model.actions state).toList, ∀ entry ∈ offer.2.toList,
    0 ≤ entry.2
  total_le_one : ∀ state, ∀ offer ∈ (model.actions state).toList, totalProbability offer.2 ≤ 1

/-- Furthermore, a probability that is not zero is above the size that counts as negligible, and
a probability of staying that is not one is further than that below one. -/
structure Resolved (model : Model S A Rat) : Prop extends model.Substochastic where
  visible : ∀ state, ∀ offer ∈ (model.actions state).toList, ∀ entry ∈ offer.2.toList,
    entry.2 = 0 ∨ negligible < entry.2
  staying : ∀ state, ∀ offer ∈ (model.actions state).toList, ∀ entry ∈ offer.2.toList,
    compare entry.1 state = .eq → entry.2 = 1 ∨ entry.2 < 1 - negligible

/-- Probabilities that the constraints of a reachability problem can tell apart: none is negative,
one that is not zero is above the size that counts as negligible, and one of staying that is not
one is further than that below one.  They need not sum to one. -/
structure Discernible (model : Model S A Rat) : Prop where
  nonneg : ∀ state, ∀ offer ∈ (model.actions state).toList, ∀ entry ∈ offer.2.toList,
    0 ≤ entry.2
  visible : ∀ state, ∀ offer ∈ (model.actions state).toList, ∀ entry ∈ offer.2.toList,
    entry.2 = 0 ∨ negligible < entry.2
  staying : ∀ state, ∀ offer ∈ (model.actions state).toList, ∀ entry ∈ offer.2.toList,
    compare entry.1 state = .eq → entry.2 = 1 ∨ entry.2 < 1 - negligible

theorem Resolved.discernible {model : Model S A Rat} (resolved : model.Resolved) :
    model.Discernible :=
  ⟨resolved.nonneg, resolved.visible, resolved.staying⟩

theorem negligible_pos : (0 : Rat) < negligible :=
  decimal_pos 12

theorem negligible_lt_one : (negligible : Rat) < 1 := by
  unfold negligible Number.decimal
  norm_num

/-- Whether the probabilities of a model are discernible can be seen at its states. -/
theorem WellFormed.discernible_of_states [TransOrd S] [LawfulEqOrd S] {model : Model S A Rat}
    (wellFormed : model.WellFormed)
    (checked : ∀ state ∈ model.states.toList, ∀ offer ∈ (model.actions state).toList,
      ∀ entry ∈ offer.2.toList, 0 ≤ entry.2 ∧ (entry.2 = 0 ∨ negligible < entry.2) ∧
        (compare entry.1 state = .eq → entry.2 = 1 ∨ entry.2 < 1 - negligible)) :
    model.Discernible := by
  have seen := wellFormed.forall_offers checked
  exact {
    nonneg := fun state offer offered entry member => (seen state offer offered entry member).1
    visible := fun state offer offered entry member => (seen state offer offered entry member).2.1
    staying := fun state offer offered entry member =>
      (seen state offer offered entry member).2.2 }

theorem WellFormed.resolved_of_states [TransOrd S] [LawfulEqOrd S] {model : Model S A Rat}
    (wellFormed : model.WellFormed)
    (checked : ∀ state ∈ model.states.toList, ∀ offer ∈ (model.actions state).toList,
      totalProbability offer.2 ≤ 1 ∧ ∀ entry ∈ offer.2.toList, 0 ≤ entry.2 ∧
        (entry.2 = 0 ∨ negligible < entry.2) ∧
        (compare entry.1 state = .eq → entry.2 = 1 ∨ entry.2 < 1 - negligible)) :
    model.Resolved := by
  have discernible := wellFormed.discernible_of_states fun state member offer offered =>
    (checked state member offer offered).2
  exact {
    nonneg := discernible.nonneg
    total_le_one := fun state offer offered =>
      (wellFormed.forall_offers checked state offer offered).1
    visible := discernible.visible
    staying := discernible.staying }

theorem horizonValue_of_target (model : Model S A Rat) {targets : LabelSet S} {state : S}
    (isTarget : targets.contains state = true) (steps : Nat) :
    model.horizonValue targets steps state = 1 := by
  cases steps <;> rw [horizonValue, if_pos isTarget]

theorem horizonValue_zero_of_not_target (model : Model S A Rat) {targets : LabelSet S} {state : S}
    (noTarget : ¬targets.contains state = true) : model.horizonValue targets 0 state = 0 :=
  if_neg noTarget

theorem horizonValue_succ_of_not_target (model : Model S A Rat) {targets : LabelSet S} {state : S}
    (noTarget : ¬targets.contains state = true) (steps : Nat) :
    model.horizonValue targets (steps + 1) state =
      greatest ((model.actions state).toList.map fun offer =>
        expected offer.2 (model.horizonValue targets steps)) :=
  if_neg noTarget

theorem expected_le_horizonValue (model : Model S A Rat) {targets : LabelSet S} {state : S}
    (noTarget : ¬targets.contains state = true) {offer : A × Distribution S Rat}
    (offered : offer ∈ (model.actions state).toList) (steps : Nat) :
    expected offer.2 (model.horizonValue targets steps) ≤
      model.horizonValue targets (steps + 1) state := by
  rw [horizonValue_succ_of_not_target model noTarget]
  exact le_greatest (List.mem_map.mpr ⟨offer, offered, rfl⟩)

namespace Substochastic

variable {model : Model S A Rat}

theorem expected_nonneg (proper : model.Substochastic) {state : S}
    {offer : A × Distribution S Rat} (offered : offer ∈ (model.actions state).toList)
    {values : S → Rat} (nonneg : ∀ entry ∈ offer.2.toList, 0 ≤ values entry.1) :
    0 ≤ expected offer.2 values :=
  MarkovDecision.expected_nonneg (proper.nonneg state offer offered) nonneg

theorem expected_le (proper : model.Substochastic) {state : S}
    {offer : A × Distribution S Rat} (offered : offer ∈ (model.actions state).toList)
    {values : S → Rat} {bound : Rat} (boundNonneg : 0 ≤ bound)
    (below : ∀ entry ∈ offer.2.toList, values entry.1 ≤ bound) :
    expected offer.2 values ≤ bound := by
  have total := proper.total_le_one state offer offered
  calc expected offer.2 values
      ≤ expected offer.2 (fun _ => bound) :=
        expected_le_expected (proper.nonneg state offer offered) below
    _ = totalProbability offer.2 * bound := expected_const _ _
    _ ≤ 1 * bound := mul_le_mul_of_nonneg_right total boundNonneg
    _ = bound := one_mul bound

theorem horizonValue_nonneg (proper : model.Substochastic) (targets : LabelSet S) (steps : Nat)
    (state : S) : 0 ≤ model.horizonValue targets steps state := by
  by_cases isTarget : targets.contains state = true
  · rw [horizonValue_of_target model isTarget]
    exact zero_le_one
  · induction steps generalizing state with
    | zero => rw [horizonValue_zero_of_not_target model isTarget]
    | succ steps ih =>
        rw [horizonValue_succ_of_not_target model isTarget]
        apply greatest_nonneg
        intro value member
        obtain ⟨offer, offered, rfl⟩ := List.mem_map.mp member
        apply proper.expected_nonneg offered
        intro entry _
        by_cases nextTarget : targets.contains entry.1 = true
        · rw [horizonValue_of_target model nextTarget]
          exact zero_le_one
        · exact ih entry.1 nextTarget

theorem horizonValue_le_one (proper : model.Substochastic) (targets : LabelSet S) (steps : Nat)
    (state : S) : model.horizonValue targets steps state ≤ 1 := by
  induction steps generalizing state with
  | zero =>
      rw [horizonValue]
      split
      · exact le_refl _
      · exact zero_le_one
  | succ steps ih =>
      rw [horizonValue]
      split
      · exact le_refl _
      · apply greatest_le zero_le_one
        intro value member
        obtain ⟨offer, offered, rfl⟩ := List.mem_map.mp member
        exact proper.expected_le offered zero_le_one fun entry _ => ih entry.1

theorem horizonValue_le_succ (proper : model.Substochastic) (targets : LabelSet S) (steps : Nat)
    (state : S) :
    model.horizonValue targets steps state ≤ model.horizonValue targets (steps + 1) state := by
  induction steps generalizing state with
  | zero =>
      by_cases isTarget : targets.contains state = true
      · rw [horizonValue_of_target model isTarget, horizonValue_of_target model isTarget]
      · rw [horizonValue_zero_of_not_target model isTarget]
        exact proper.horizonValue_nonneg targets 1 state
  | succ steps ih =>
      by_cases isTarget : targets.contains state = true
      · rw [horizonValue_of_target model isTarget, horizonValue_of_target model isTarget]
      · rw [horizonValue_succ_of_not_target model isTarget]
        refine greatest_le (proper.horizonValue_nonneg targets (steps + 2) state) ?_
        intro value member
        obtain ⟨offer, offered, rfl⟩ := List.mem_map.mp member
        have stepwise := expected_le_expected (proper.nonneg state offer offered)
          fun entry _ => ih entry.1
        exact stepwise.trans (expected_le_horizonValue model isTarget offered (steps + 1))

theorem horizonValue_monotone (proper : model.Substochastic) (targets : LabelSet S) (state : S) :
    Monotone fun steps => model.horizonValue targets steps state :=
  monotone_nat_of_le_succ fun steps => proper.horizonValue_le_succ targets steps state

end Substochastic

end Model

end MarkovDecision
