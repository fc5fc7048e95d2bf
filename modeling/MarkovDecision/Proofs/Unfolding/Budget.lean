import MarkovDecision.Proofs.Distance
import MarkovDecision.Proofs.Unfolding.Product

/-!
# Targets within the budget

Whatever the pruning mode, nothing can be lost any more in a target.  A target is therefore kept
if and only if its value is at or above the bound, and no other one comes into an unfolded model
that starts outside the targets.
-/

namespace MarkovDecision

open Std (TreeMap TreeSet TransOrd LawfulEqOrd ReflCmp TransCmp)

namespace Unfolding

variable {S A R : Type} [Ord S] [Ord A] [Number R]

theorem keeps_some_iff {distances : Distances S R} {bound : R} {state : S} {value : R} :
    keeps (some distances) bound state value = true ↔
      ∃ distance, recorded distances state = some distance ∧ bound ≤ value - distance := by
  rw [keeps]
  cases recorded distances state <;> simp

omit [Ord A] in
theorem remainingLoss_shortestPath {model : Model S A R} {targets : LabelSet S}
    {remaining : Option (Distances S R)}
    (lossEq : remainingLoss model targets .shortestPath = .ok remaining) :
    ∃ distances, model.distancesToTargets targets = .ok distances ∧ remaining = some distances := by
  rw [remainingLoss] at lossEq
  cases measured : model.distancesToTargets targets with
  | error cycle =>
      rw [measured] at lossEq
      cases lossEq
  | ok distances =>
      rw [measured] at lossEq
      cases lossEq
      exact ⟨distances, rfl, rfl⟩

variable [TransOrd S] [LawfulEqOrd S] [LawfulNumber R] {model : Model S A R} {targets : LabelSet S}
  {pruning : Pruning} {remaining : Option (Distances S R)}

theorem keeps_target_iff (wellFormed : model.WellFormed)
    (lossEq : remainingLoss model targets pruning = .ok remaining) {state : S}
    (known : model.contains state = true) (isTarget : targets.contains state = true)
    (bound value : R) : keeps remaining bound state value = true ↔ bound ≤ value := by
  cases pruning with
  | threshold =>
      cases lossEq
      simp [keeps]
  | shortestPath =>
      obtain ⟨distances, measured, rfl⟩ := remainingLoss_shortestPath lossEq
      rw [keeps_some_iff, wellFormed.recorded_target measured isTarget known]
      simp [Number.le_sub_zero_iff]

variable {source : S} {initialValue bound : R}

/-- An unfolding that starts outside the targets holds no target that is out of budget. -/
theorem KeptPair.bound_le (wellFormed : model.WellFormed)
    (lossEq : remainingLoss model targets pruning = .ok remaining)
    (fromOutside : ¬targets.contains source = true) {state : S} {value : R}
    (isKept : KeptPair model targets (keeps remaining bound) source initialValue state value)
    (isTarget : targets.contains state = true) : bound ≤ value := by
  induction isKept with
  | start => exact (fromOutside isTarget).elim
  | @step state value transition _ _ leaves kept _ =>
      exact (keeps_target_iff wellFormed lossEq (wellFormed.closed state transition leaves)
        isTarget bound _).mp kept
  | @same state other value otherValue _ sameNode ih =>
      obtain ⟨sameState, sameValue⟩ := (UnfoldedState.compare_pair_eq_iff _ _ _ _).mp sameNode
      rw [← TreeSet.contains_congr sameState] at isTarget
      exact (LawfulNumber.le_iff_of_sameKey bound sameValue).mp (ih isTarget)

omit [LawfulEqOrd S] [Ord A] in
/-- A source that is a target is not left. -/
theorem KeptPair.same_start {keep : S → R → Bool} (sourceTarget : targets.contains source = true)
    {state : S} {value : R}
    (isKept : KeptPair model targets keep source initialValue state value) :
    compare (UnfoldedState.pair source initialValue) (.pair state value) = .eq := by
  induction isKept with
  | start => exact ReflCmp.compare_self
  | step _ noTarget _ _ ih =>
      rw [← TreeSet.contains_congr ((UnfoldedState.compare_pair_eq_iff _ _ _ _).mp ih).1]
        at noTarget
      exact (noTarget sourceTarget).elim
  | same _ sameNode ih => exact TransCmp.eq_trans ih sameNode

omit [TransOrd S] [LawfulEqOrd S] [LawfulNumber R] in
theorem IsProduct.contains_targets_iff {keep : S → R → Bool} {unfolding : Unfolding S A R}
    (product : IsProduct model targets keep source initialValue unfolding) {state : S} {value : R}
    (isKept : KeptPair model targets keep source initialValue state value) :
    unfolding.targets.contains (.pair state value) = true ↔ targets.contains state = true := by
  rw [product.targets_iff]
  constructor
  · rintro ⟨other, otherValue, sameEntry, -, isTarget⟩
    cases sameEntry
    exact isTarget
  · exact fun isTarget => ⟨state, value, rfl, isKept, isTarget⟩

section Exact

variable {model : Model S A Rat} {distances : Distances S Rat} {bound : Rat}

/-- By the distances, a pair is kept if a step leads from it to a pair that is kept: what the step
loses is lost from the distance as well. -/
theorem keeps_of_step (wellFormed : model.WellFormed)
    (measured : model.distancesToTargets targets = .ok distances) {state : S} {value : Rat}
    {transition : Transition S A Rat} (leaves : transition ∈ model.outgoing state)
    (noTarget : ¬targets.contains state = true)
    (nextKept : keeps (some distances) bound transition.target (value + transition.weight) = true) :
    keeps (some distances) bound state value = true := by
  rw [keeps_some_iff] at nextKept ⊢
  obtain ⟨distance, nextDistance, within⟩ := nextKept
  obtain ⟨own, ownDistance, ownLe⟩ := wellFormed.potential_distancesToTargets measured state
    transition leaves noTarget distance nextDistance
  exact ⟨own, ownDistance, by linarith⟩

end Exact

end Unfolding

end MarkovDecision
