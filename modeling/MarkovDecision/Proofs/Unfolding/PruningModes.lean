import MarkovDecision.Proofs.Relaxation
import MarkovDecision.Proofs.Unfolding.StateLimit
import MarkovDecision.Proofs.Unfolding.Success

/-!
# The two pruning modes

The distances drop pairs that the threshold alone keeps.  From such a pair all steps lead to such
pairs or out of budget, so it is worth nothing, and the threshold never promises more than the
distances do.  Where nothing is gained outside the targets no distance is negative; then the
distances keep nothing that the threshold drops, and both promise the same.
-/

namespace MarkovDecision

open Std (TreeMap TransOrd LawfulEqOrd)

namespace Unfolding

variable {S A : Type} [Ord S] [TransOrd S] [LawfulEqOrd S] [Ord A] [TransOrd A]

/-- The nodes of an unfolding are among those of another one that promises the same at each of
them, and nothing at any other node. -/
structure AgreesWith (small large : Unfolding S A Rat) : Prop where
  initial_eq : small.initial = large.initial
  contains : ∀ label, small.model.contains label = true → large.model.contains label = true
  success_eq : ∀ label, small.model.contains label = true → small.success label = large.success label
  success_eq_zero : ∀ label, large.model.contains label = true →
    ¬small.model.contains label = true → large.success label = 0

variable {model : Model S A Rat} {targets : LabelSet S} {source : S} {initialValue bound : Rat}
  {distances : Distances S Rat}

omit [TransOrd S] [LawfulEqOrd S] in
@[simp]
theorem keeps_none_iff (bound : Rat) (state : S) (value : Rat) :
    keeps none bound state value = true ↔ bound ≤ value := by
  simp [keeps]

omit [TransOrd A] in
theorem keeps_threshold_of_keeps (wellFormed : model.WellFormed)
    (neverGains : model.NeverGains targets)
    (measured : model.distancesToTargets targets = .ok distances) {state : S}
    (known : model.contains state = true) {value : Rat}
    (kept : keeps (some distances) bound state value = true) :
    keeps none bound state value = true := by
  obtain ⟨distance, found, within⟩ := keeps_some_iff.mp kept
  have nonneg := neverGains.distance_nonneg wellFormed measured known found
  rw [keeps_none_iff]
  linarith

section Dropped

variable (wellFormed : model.WellFormed)
  (measured : model.distancesToTargets targets = .ok distances)
include wellFormed measured

/-- What the threshold keeps and the distances drop is worth nothing by the threshold. -/
theorem IsProduct.dropsWorthless {byThreshold : Unfolding S A Rat}
    (product : IsProduct model targets (keeps none bound) source initialValue byThreshold) :
    DropsWorthless model targets (keeps none bound) (keeps (some distances) bound) source
      initialValue byThreshold := by
  have lossEq : remainingLoss model targets .shortestPath = .ok (some distances) := by
    rw [remainingLoss, measured]
    rfl
  intro steps state value known isKept kept dropped
  have noTarget : ¬targets.contains state = true := by
    intro isTarget
    rw [keeps_target_iff wellFormed lossEq known isTarget] at dropped
    exact dropped ((keeps_none_iff bound state value).mp kept)
  induction steps generalizing state value with
  | zero => exact product.horizonValue_zero isKept noTarget
  | succ steps ih =>
      rw [product.horizonValue_succ isKept noTarget wellFormed (respectsKeys_keeps none bound)]
      apply greatest_eq_zero
      intro share member
      obtain ⟨offer, -, rfl⟩ := List.mem_map.mp member
      apply List.sum_eq_zero
      intro part partMem
      obtain ⟨transition, taken, rfl⟩ := List.mem_map.mp partMem
      have leaves := List.mem_of_mem_filter taken
      have nextKnown := wellFormed.closed state transition leaves
      have nextDropped := mt (keeps_of_step wellFormed measured leaves noTarget) dropped
      unfold destination
      split
      · rename_i nextKept
        rw [ih _ _ nextKnown (KeptPair.step isKept noTarget leaves nextKept) nextKept nextDropped,
          mul_zero]
        intro isTarget
        rw [keeps_target_iff wellFormed lossEq nextKnown isTarget] at nextDropped
        exact nextDropped ((keeps_none_iff bound _ _).mp nextKept)
      · rw [product.horizonValue_bottom, mul_zero]

omit [TransOrd A] in
theorem KeptPair.dropped {state : S} {value : Rat}
    (isKept : KeptPair model targets (keeps none bound) source initialValue state value)
    (notKept : ¬KeptPair model targets (keeps (some distances) bound) source initialValue state
      value) :
    model.contains state = true ∧ keeps none bound state value = true ∧
      ¬keeps (some distances) bound state value = true := by
  induction isKept with
  | start => exact (notKept KeptPair.start).elim
  | @step state value transition here noTarget leaves kept ih =>
      refine ⟨wellFormed.closed state transition leaves, kept, fun nextKept => ?_⟩
      by_cases hereKept :
          KeptPair model targets (keeps (some distances) bound) source initialValue state value
      · exact notKept (KeptPair.step hereKept noTarget leaves nextKept)
      · exact (ih hereKept).2.2 (keeps_of_step wellFormed measured leaves noTarget nextKept)
  | @same state other value otherValue here sameNode ih =>
      obtain ⟨sameState, -⟩ := (UnfoldedState.compare_pair_eq_iff _ _ _ _).mp sameNode
      rw [← model.contains_congr sameState, ← respectsKeys_keeps none bound sameNode,
        ← respectsKeys_keeps (some distances) bound sameNode]
      exact ih fun hereKept => notKept (KeptPair.same hereKept sameNode)

end Dropped

section Modes

variable {byThreshold byDistance : Unfolding S A Rat}
  (thresholdProduct : IsProduct model targets (keeps none bound) source initialValue byThreshold)
  (distanceProduct :
    IsProduct model targets (keeps (some distances) bound) source initialValue byDistance)
  (wellFormed : model.WellFormed) (proper : model.Substochastic)
  (measured : model.distancesToTargets targets = .ok distances)
include thresholdProduct distanceProduct wellFormed proper measured

theorem IsProduct.success_threshold_le {state : S} {value : Rat}
    (isKept : KeptPair model targets (keeps none bound) source initialValue state value)
    (isOther :
      KeptPair model targets (keeps (some distances) bound) source initialValue state value) :
    byThreshold.success (.pair state value) ≤ byDistance.success (.pair state value) :=
  thresholdProduct.success_le distanceProduct wellFormed proper (respectsKeys_keeps none bound)
    (respectsKeys_keeps (some distances) bound)
    (thresholdProduct.dropsWorthless wellFormed measured) isKept isOther

theorem IsProduct.agreesWith_threshold (neverGains : model.NeverGains targets) :
    byDistance.AgreesWith byThreshold := by
  have keepsMore : ∀ state value, model.contains state = true →
      keeps (some distances) bound state value = true → keeps none bound state value = true :=
    fun _ _ known => keeps_threshold_of_keeps wellFormed neverGains measured known
  have toThreshold {state : S} {value : Rat}
      (isKept :
        KeptPair model targets (keeps (some distances) bound) source initialValue state value) :
      KeptPair model targets (keeps none bound) source initialValue state value :=
    isKept.mono wellFormed keepsMore
  refine ⟨?_, ?_, ?_, ?_⟩
  · rw [distanceProduct.initial_eq, thresholdProduct.initial_eq]
  · intro label known
    rw [thresholdProduct.contains_iff]
    rcases (distanceProduct.contains_iff label).mp known with
      isBottom | ⟨state, value, isPair, isKept⟩
    · exact Or.inl isBottom
    · exact Or.inr ⟨state, value, isPair, toThreshold isKept⟩
  · intro label known
    rcases (distanceProduct.contains_iff label).mp known with rfl | ⟨state, value, rfl, isKept⟩
    · rw [distanceProduct.success_bottom, thresholdProduct.success_bottom]
    · apply le_antisymm
      · apply distanceProduct.success_le thresholdProduct wellFormed proper
          (respectsKeys_keeps (some distances) bound) (respectsKeys_keeps none bound) _ isKept
          (toThreshold isKept)
        intro steps other otherValue otherKnown _ kept dropped
        exact (dropped (keepsMore other otherValue otherKnown kept)).elim
      · exact thresholdProduct.success_threshold_le distanceProduct wellFormed proper measured
          (toThreshold isKept) isKept
  · intro label known unknown
    rcases (thresholdProduct.contains_iff label).mp known with rfl | ⟨state, value, rfl, isKept⟩
    · exact thresholdProduct.success_bottom
    · have notKept := mt distanceProduct.contains_of_keptPair unknown
      obtain ⟨stateKnown, kept, dropped⟩ := isKept.dropped wellFormed measured notKept
      have worthless (steps : Nat) := thresholdProduct.dropsWorthless wellFormed measured steps
        state value stateKnown isKept kept dropped
      simp [success, Model.limitValue, worthless]

end Modes

section Build

variable {maxStates : Nat} {unfolding : Unfolding S A Rat} (wellFormed : model.WellFormed)
include wellFormed

omit [LawfulEqOrd S] in
theorem isProduct_of_threshold
    (built : build model source targets bound ⟨.threshold, maxStates, initialValue⟩ =
      .ok unfolding) :
    IsProduct model targets (keeps none bound) source initialValue unfolding := by
  obtain ⟨remaining, lossEq⟩ := exists_remainingLoss_of_build built
  have product := isProduct_of_build wellFormed lossEq built
  cases lossEq
  exact product

omit [LawfulEqOrd S] in
theorem isProduct_of_shortestPath
    (built : build model source targets bound ⟨.shortestPath, maxStates, initialValue⟩ =
      .ok unfolding) :
    ∃ distances, model.distancesToTargets targets = .ok distances ∧
      IsProduct model targets (keeps (some distances) bound) source initialValue unfolding := by
  obtain ⟨remaining, lossEq⟩ := exists_remainingLoss_of_build built
  have product := isProduct_of_build wellFormed lossEq built
  obtain ⟨distances, measured, rfl⟩ := remainingLoss_shortestPath lossEq
  exact ⟨distances, measured, product⟩

end Build

/-- Both modes agree.  Where nothing is gained outside the targets, the distances unfold whatever
the threshold unfolds, to a part of it that promises the same and leaves out nothing of worth.
Whatever the weights, the threshold promises no more than the distances do. -/
theorem pruning_modes_agree (wellFormed : model.WellFormed) (proper : model.Substochastic)
    (source : S) (targets : LabelSet S) (bound initialValue : Rat) (maxStates : Nat) :
    (model.NeverGains targets → ∀ byThreshold,
      build model source targets bound ⟨.threshold, maxStates, initialValue⟩ = .ok byThreshold →
        ∃ byDistance, build model source targets bound ⟨.shortestPath, maxStates, initialValue⟩ =
          .ok byDistance ∧ byDistance.AgreesWith byThreshold) ∧
    ∀ byThreshold byDistance,
      build model source targets bound ⟨.threshold, maxStates, initialValue⟩ = .ok byThreshold →
      build model source targets bound ⟨.shortestPath, maxStates, initialValue⟩ = .ok byDistance →
        byThreshold.success byThreshold.initial ≤ byDistance.success byDistance.initial := by
  constructor
  · intro neverGains byThreshold built
    have thresholdProduct := isProduct_of_threshold wellFormed built
    obtain ⟨distances, measured⟩ := neverGains.exists_distancesToTargets wellFormed
    have lossEq : remainingLoss model targets .shortestPath = .ok (some distances) := by
      rw [remainingLoss, measured]
      rfl
    have fits := thresholdProduct.not_outgrows (size_le_of_build_eq_ok built)
      fun state value isKept => isKept.mono wellFormed
        fun _ _ known => keeps_threshold_of_keeps wellFormed neverGains measured known
    obtain ⟨byDistance, distanceBuilt⟩ : ∃ byDistance,
        build model source targets bound ⟨.shortestPath, maxStates, initialValue⟩ =
          .ok byDistance := exists_build_eq_ok lossEq fits
    obtain ⟨others, othersMeasured, distanceProduct⟩ :=
      isProduct_of_shortestPath wellFormed distanceBuilt
    exact ⟨byDistance, distanceBuilt, thresholdProduct.agreesWith_threshold distanceProduct
      wellFormed proper othersMeasured neverGains⟩
  · intro byThreshold byDistance built distanceBuilt
    have thresholdProduct := isProduct_of_threshold wellFormed built
    obtain ⟨distances, measured, distanceProduct⟩ :=
      isProduct_of_shortestPath wellFormed distanceBuilt
    rw [thresholdProduct.initial_eq, distanceProduct.initial_eq]
    exact thresholdProduct.success_threshold_le distanceProduct wellFormed proper measured
      KeptPair.start KeptPair.start

theorem neverGains_tryAgain : tryAgain.NeverGains {1} := by
  have noGain := wellFormed_tryAgain.forall_outgoing
    (show ∀ state ∈ tryAgain.states.toList, ∀ transition ∈ tryAgain.outgoing state,
      transition.weight ≤ 0 by decide)
  exact fun state _ => noGain state

/-- With two to lose, the distances of `tryAgain` drop the second attempt, which comes too late,
and both modes promise the same. -/
theorem pruning_modes_agree_tryAgain :
    ∃ byThreshold byDistance,
      build tryAgain 0 {1} (-2) ⟨.threshold, 100, 0⟩ = .ok byThreshold ∧
      build tryAgain 0 {1} (-2) ⟨.shortestPath, 100, 0⟩ = .ok byDistance ∧
      byThreshold.model.contains (.pair 0 (-2)) = true ∧
      ¬byDistance.model.contains (.pair 0 (-2)) = true ∧
      byDistance.AgreesWith byThreshold ∧
      byThreshold.success byThreshold.initial ≤ byDistance.success byDistance.initial := by
  obtain ⟨byThreshold, built⟩ := exists_eq_ok
    (show (build tryAgain 0 {1} (-2) ⟨.threshold, 100, 0⟩).isOk = true by decide +kernel)
  obtain ⟨agree, below⟩ := pruning_modes_agree wellFormed_tryAgain
    resolved_tryAgain.toSubstochastic 0 {1} (-2) 0 100
  obtain ⟨byDistance, distanceBuilt, agrees⟩ := agree neverGains_tryAgain byThreshold built
  have kept : ∀ unfolding ∈ (build tryAgain 0 {1} (-2) ⟨.threshold, 100, 0⟩).toOption,
      unfolding.model.contains (.pair 0 (-2)) = true := by decide +kernel
  have dropped : ∀ unfolding ∈ (build tryAgain 0 {1} (-2) ⟨.shortestPath, 100, 0⟩).toOption,
      ¬unfolding.model.contains (.pair 0 (-2)) = true := by decide +kernel
  exact ⟨byThreshold, byDistance, built, distanceBuilt,
    kept byThreshold (mem_toOption_of_eq_ok built),
    dropped byDistance (mem_toOption_of_eq_ok distanceBuilt), agrees,
    below byThreshold byDistance built distanceBuilt⟩

end Unfolding

end MarkovDecision
