import MarkovDecision.Proofs.Model.Permuted
import MarkovDecision.Proofs.Relaxation
import MarkovDecision.Proofs.Unfolding.StateLimit

/-!
# Unfoldings of alike models

Models that are alike relax their arcs in different orders and expand their pairs in different
orders.  The distances to the targets do not depend on that, since they are the lengths of shortest
routes; a reward cycle is met on the way from the same target; the same pairs are kept; and the same
number of them has to fit.  The unfolded models have the same states and the same probabilities.
Their edges to `bottom` may carry different weights, because such an edge has the weight of the
first of the transitions that make it.
-/

namespace MarkovDecision

open Std (TreeMap TreeSet TransOrd LawfulEqOrd LawfulEqCmp ReflCmp)

variable {S A : Type} [Ord S] [TransOrd S] [LawfulEqOrd S] [Ord A] [TransOrd A] [LawfulEqOrd A]
  {first second : Model S A Rat}

section Distances

variable {targets : LabelSet S}

theorem Model.Alike.reversedArcs_subset (alike : first.Alike second) (targets : LabelSet S) :
    first.reversedArcs targets ⊆ second.reversedArcs targets := by
  intro arc member
  obtain ⟨source, transition, leaves, noTarget, rfl⟩ :=
    (alike.wellFormed.mem_reversedArcs_iff targets arc).mp member
  obtain ⟨other, otherLeaves, sameContent⟩ := alike.exists_transition leaves
  simp only [Transition.content, Prod.mk.injEq] at sameContent
  refine (alike.otherWellFormed.mem_reversedArcs_iff targets _).mpr
    ⟨source, other, otherLeaves, noTarget, ?_⟩
  rw [sameContent.2.1, sameContent.2.2.2]

theorem Model.Alike.exists_distancesFrom (alike : first.Alike second) {start : S}
    (known : first.contains start = true) {distances : Distances S Rat}
    (found : distancesFrom (first.reversedArcs targets) (first.size - 1) start = some distances) :
    ∃ others, distancesFrom (second.reversedArcs targets) (second.size - 1) start = some others ∧
      ∀ state, recorded distances state = recorded others state := by
  have noGain : NoGainFrom (second.reversedArcs targets) start := by
    intro before circuit state toState around
    have within := alike.symm.reversedArcs_subset targets
    exact noGainFrom_of_distancesFrom found before circuit state (toState.mono within)
      (around.mono within)
  obtain ⟨others, othersFound⟩ :=
    alike.otherWellFormed.exists_distancesFrom (alike.contains_eq start ▸ known) noGain
  refine ⟨others, othersFound, ?_⟩
  exact (undercuts_distancesFrom (alike.symm.reversedArcs_subset targets) othersFound
    found).antisymm (undercuts_distancesFrom (alike.reversedArcs_subset targets) found othersFound)

omit [TransOrd A] [LawfulEqOrd A] in
theorem Model.Alike.takeShorter_equiv (alike : first.Alike second)
    {best otherBest added otherAdded : Distances S Rat} (sameBest : best.Equiv otherBest)
    (sameAdded : ∀ state, recorded added state = recorded otherAdded state) :
    (first.takeShorter best added).Equiv (second.takeShorter otherBest otherAdded) := by
  apply TreeMap.Equiv.of_forall_constGet?_eq
  intro state
  have sameEntry : best[state]? = otherBest[state]? := sameBest.getElem?_eq
  by_cases known : first.contains state = true
  · rw [alike.wellFormed.getElem?_takeShorter best added known,
      alike.otherWellFormed.getElem?_takeShorter otherBest otherAdded
        (alike.contains_eq state ▸ known), sameAdded, recorded_congr sameEntry, sameEntry]
  · rw [alike.wellFormed.getElem?_takeShorter_of_unknown best added known,
      alike.otherWellFormed.getElem?_takeShorter_of_unknown otherBest otherAdded
        (alike.contains_eq state ▸ known), sameEntry]

omit [TransOrd A] [LawfulEqOrd A] in
theorem Model.Alike.infinitelyFar_equiv (alike : first.Alike second) :
    (first.infinitelyFar : Distances S Rat).Equiv second.infinitelyFar := by
  apply TreeMap.Equiv.of_forall_constGet?_eq
  intro state
  rw [alike.wellFormed.getElem?_infinitelyFar, alike.otherWellFormed.getElem?_infinitelyFar,
    alike.contains_eq]

theorem Model.Alike.distancePass_endAlike (alike : first.Alike second) {start : S}
    (known : first.contains start = true) {best other : Distances S Rat}
    (sameBest : best.Equiv other) :
    EndAlike TreeMap.Equiv (first.distancePass targets best start)
      (second.distancePass targets other start) := by
  unfold distancePass
  cases found : distancesFrom (first.reversedArcs targets) (first.size - 1) start with
  | some distances =>
      obtain ⟨others, othersFound, sameDistances⟩ := alike.exists_distancesFrom known found
      rw [othersFound]
      exact .ok (alike.takeShorter_equiv sameBest sameDistances)
  | none =>
      cases othersFound : distancesFrom (second.reversedArcs targets) (second.size - 1) start with
      | none => exact .error _
      | some others =>
          obtain ⟨distances, foundToo, -⟩ :=
            alike.symm.exists_distancesFrom (alike.contains_eq start ▸ known) othersFound
          rw [found] at foundToo
          cases foundToo

/-- The distances to the targets are the same, or there is a reward cycle on the way from the same
target. -/
theorem Model.Alike.distancesToTargets_endAlike (alike : first.Alike second)
    (targets : LabelSet S) : EndAlike TreeMap.Equiv (first.distancesToTargets targets)
      (second.distancesToTargets targets) := by
  have sameStates : first.contains = second.contains := funext alike.contains_eq
  rw [distancesToTargets_eq, distancesToTargets_eq, ← sameStates]
  exact EndAlike.foldlM (fun start listed _ _ sameBest =>
    alike.distancePass_endAlike (List.mem_filter.mp listed).2 sameBest) alike.infinitelyFar_equiv

end Distances

namespace Unfolding

/-- Two unfoldings start from the same pair, have the same nodes and targets, and the same
probabilities. -/
structure SameChances (first second : Unfolding S A Rat) : Prop where
  model : first.model.SameChances second.model
  targets : first.targets.Equiv second.targets
  initial : first.initial = second.initial

omit [TransOrd A] [LawfulEqOrd A] [LawfulEqOrd S] in
theorem stays_eq_isSome (model : Model S A Rat) (state : S) (action : A) :
    stays model state action = ((model.actions state).probability? action state).isSome := by
  unfold stays ActionTable.probability?
  cases (model.actions state)[action]? with
  | none => rfl
  | some distribution => exact TreeMap.contains_eq_isSome_getElem?

omit [TransOrd A] [LawfulEqOrd A] [LawfulEqOrd S] in
theorem loops_iff (same : first.SameChances second)
    (state : S) (action : UnfoldedAction A) :
    loops first state action ↔ loops second state action := by
  cases action <;> simp only [loops, stays_eq_isSome, same.probability?_eq]

theorem total?_eq_of_perm {values others : List Rat} (isPerm : values.Perm others) :
    total? values = total? others := by
  cases values with
  | nil => rw [isPerm.nil_eq]
  | cons first rest =>
      cases others with
      | nil => cases isPerm.eq_nil
      | cons other others =>
          have sums := isPerm.sum_eq
          rw [List.sum_cons, List.sum_cons] at sums
          rw [total?, total?, foldl_add_eq_add_sum, foldl_add_eq_add_sum, sums]

section Products

variable (alike : first.Alike second) {targets : LabelSet S} {keep : S → Rat → Bool} {source : S}
  {initialValue : Rat}
include alike

theorem keptPair_of_alike {state : S} {value : Rat}
    (isKept : KeptPair first targets keep source initialValue state value) :
    KeptPair second targets keep source initialValue state value := by
  induction isKept with
  | start => exact .start
  | @step state value transition _ noTarget leaves kept ih =>
      obtain ⟨other, otherLeaves, sameContent⟩ := alike.exists_transition leaves
      simp only [Transition.content, Prod.mk.injEq] at sameContent
      obtain ⟨-, sameTarget, -, sameWeight⟩ := sameContent
      rw [← sameTarget, ← sameWeight] at kept ⊢
      exact .step ih noTarget otherLeaves kept
  | same _ sameNode ih => exact ih.same sameNode

theorem keptPair_iff (state : S) (value : Rat) :
    KeptPair first targets keep source initialValue state value ↔
      KeptPair second targets keep source initialValue state value :=
  ⟨keptPair_of_alike alike, keptPair_of_alike alike.symm⟩

theorem total?_pruned_eq (keep : S → Rat → Bool) (state : S) (value : Rat) (action : A) :
    total? (pruned first keep state value action) =
      total? (pruned second keep state value action) := by
  have byContent (model : Model S A Rat) : pruned model keep state value action =
      (((model.outgoing state).map Transition.content).filter fun content =>
        sameLabel content.1 action && !keep content.2.1 (value + content.2.2.2)).map
          (·.2.2.1) := by
    rw [List.filter_map, List.map_map]
    rfl
  rw [byContent, byContent]
  exact total?_eq_of_perm (((alike.perm_contents state).filter _).map _)

theorem outgrows_of_alike {limit : Nat}
    (outgrows : Outgrows first targets keep source initialValue limit) :
    Outgrows second targets keep source initialValue limit := by
  obtain ⟨nodes, distinct, belongs, tooMany⟩ := outgrows
  refine ⟨nodes, distinct, fun node member => ?_, tooMany⟩
  rcases belongs node member with isBottom | ⟨state, value, isPair, isKept⟩
  · exact Or.inl isBottom
  · exact Or.inr ⟨state, value, isPair, keptPair_of_alike alike isKept⟩

end Products

section Answers

omit [TransOrd S] [LawfulEqOrd S] [TransOrd A] [LawfulEqOrd A] in
theorem IsProduct.not_contains_loop {model : Model S A Rat} {targets : LabelSet S}
    {keep : S → Rat → Bool} {source : S} {initialValue : Rat} {unfolding : Unfolding S A Rat}
    (product : IsProduct model targets keep source initialValue unfolding) {state : S} {value : Rat}
    (isKept : KeptPair model targets keep source initialValue state value)
    (noTarget : ¬targets.contains state = true) :
    ¬(unfolding.model.actions (.pair state value)).contains .loop = true := by
  rw [product.stepActions isKept noTarget]
  simp

variable {targets : LabelSet S} {keep : S → Rat → Bool} {source : S} {initialValue : Rat}
  {unfolding other : Unfolding S A Rat}
  (product : IsProduct first targets keep source initialValue unfolding)
  (otherProduct : IsProduct second targets keep source initialValue other)
  (alike : first.Alike second)
include product otherProduct alike

/-- The products have the same probabilities: the loops of `bottom` and of the targets have
probability one, and the steps of other pairs are those of alike transitions. -/
theorem IsProduct.probability?_eq (label : UnfoldedState S Rat) (action : UnfoldedAction A)
    (target : UnfoldedState S Rat) :
    (unfolding.model.actions label).probability? action target =
      (other.model.actions label).probability? action target := by
  cases label with
  | bottom =>
      apply Option.ext
      intro probability
      rw [product.bottomEntry, otherProduct.bottomEntry]
  | pair state value =>
      rcases Classical.em (KeptPair first targets keep source initialValue state value) with
        isKept | dropped
      · have alsoKept := keptPair_of_alike alike isKept
        rcases Classical.em (targets.contains state = true) with isTarget | noTarget
        · apply Option.ext
          intro probability
          rw [product.targetEntry isKept isTarget, otherProduct.targetEntry alsoKept isTarget,
            loops_iff alike.sameChances]
        · cases action with
          | loop =>
              rw [ActionTable.probability?_of_not_contains
                  (product.not_contains_loop isKept noTarget),
                ActionTable.probability?_of_not_contains
                  (otherProduct.not_contains_loop alsoKept noTarget)]
          | take action =>
              cases target with
              | bottom =>
                  rw [product.prunedEntry isKept noTarget,
                    otherProduct.prunedEntry alsoKept noTarget, total?_pruned_eq alike]
              | pair next nextValue =>
                  rw [product.stepEntry isKept noTarget, otherProduct.stepEntry alsoKept noTarget,
                    alike.sameChances.probability?_eq, leads, leads, alike.weight?_eq]
      · have unknown : ¬unfolding.model.contains (.pair state value) = true := by
          simpa [product.contains_iff] using dropped
        have alsoUnknown : ¬other.model.contains (.pair state value) = true := by
          simpa [otherProduct.contains_iff, keptPair_iff alike] using dropped
        rw [ActionTable.probability?_of_not_contains (Model.not_contains_actions unknown action),
          ActionTable.probability?_of_not_contains (Model.not_contains_actions alsoUnknown action)]

/-- Products of alike models have the same nodes, targets and probabilities. -/
theorem IsProduct.sameChances : unfolding.SameChances other where
  model := {
    wellFormed := product.wellFormed
    otherWellFormed := otherProduct.wellFormed
    contains_eq := by
      intro label
      rw [Bool.eq_iff_iff, product.contains_iff, otherProduct.contains_iff]
      simp only [keptPair_iff alike]
    probability?_eq := product.probability?_eq otherProduct alike }
  targets := by
    apply TreeSet.Equiv.of_forall_contains_eq
    intro label
    rw [Bool.eq_iff_iff, product.targets_iff, otherProduct.targets_iff]
    simp only [keptPair_iff alike]
  initial := product.initial_eq.trans otherProduct.initial_eq.symm

end Answers

section Building

variable {targets : LabelSet S} {source : S} {bound : Rat} {settings : UnfoldSettings Rat}

omit [LawfulEqOrd S] in
theorem keeps_eq_of_equiv {distances others : Distances S Rat} (same : distances.Equiv others) :
    keeps (some distances) = keeps (some others) := by
  funext bound state value
  have sameDistance : recorded distances state = recorded others state :=
    recorded_congr same.getElem?_eq
  rw [keeps, keeps, sameDistance]

theorem remainingLoss_endAlike (alike : first.Alike second) (targets : LabelSet S)
    (pruning : Pruning) : EndAlike (fun remaining other => keeps remaining = keeps other)
      (remainingLoss first targets pruning) (remainingLoss second targets pruning) := by
  cases pruning with
  | threshold => exact .ok rfl
  | shortestPath =>
      have sameDistances := alike.distancesToTargets_endAlike targets
      unfold remainingLoss
      generalize first.distancesToTargets targets = measured at sameDistances ⊢
      generalize second.distancesToTargets targets = otherMeasured at sameDistances ⊢
      cases sameDistances with
      | ok same => exact .ok (keeps_eq_of_equiv same)
      | error cycle => exact .error cycle

omit [LawfulEqOrd S] [LawfulEqOrd A] in
/-- An unfolding is refused for a reward cycle or for the limit. -/
theorem build_error_cases {model : Model S A Rat} {error : UnfoldError S}
    (failed : build model source targets bound settings = .error error) :
    (∃ cycle, remainingLoss model targets settings.pruning = .error cycle ∧
        error = .rewardCycle cycle) ∨
      (∃ remaining, remainingLoss model targets settings.pruning = .ok remaining) ∧
        error = .stateLimit settings.maxStates := by
  unfold build at failed
  split at failed
  · rename_i cycle lossEq
    cases failed
    exact Or.inl ⟨cycle, lossEq, rfl⟩
  · rename_i remaining lossEq
    split at failed
    · rename_i exceeded ended
      cases failed
      have respects : RespectsKeys (keeps remaining bound) := respectsKeys_keeps remaining bound
      rw [(outgrows_of_explore_eq_error respects ended).1]
      exact Or.inr ⟨⟨remaining, lossEq⟩, rfl⟩
    · cases failed

theorem exists_build_of_alike (alike : first.Alike second) {unfolding : Unfolding S A Rat}
    (built : build first source targets bound settings = .ok unfolding) :
    ∃ other, build second source targets bound settings = .ok other ∧
      unfolding.SameChances other := by
  obtain ⟨remaining, lossEq⟩ := exists_remainingLoss_of_build built
  have product := isProduct_of_build alike.wellFormed lossEq built
  have sameLoss := remainingLoss_endAlike alike targets settings.pruning
  rw [lossEq] at sameLoss
  generalize otherLossEq : remainingLoss second targets settings.pruning = otherLoss at sameLoss
  cases sameLoss with
  | @ok _ otherRemaining sameRule =>
      have fits : ¬Outgrows second targets (keeps otherRemaining bound) source
          settings.initialValue settings.maxStates := by
        intro outgrows
        rw [← sameRule] at outgrows
        exact product.not_outgrows (size_le_of_build_eq_ok built) (fun _ _ isKept => isKept)
          (outgrows_of_alike alike.symm outgrows)
      obtain ⟨other, otherBuilt⟩ := exists_build_eq_ok otherLossEq fits
      obtain ⟨again, againEq⟩ := exists_remainingLoss_of_build otherBuilt
      have otherProduct := isProduct_of_build alike.otherWellFormed againEq otherBuilt
      rw [otherLossEq, Except.ok.injEq] at againEq
      rw [← againEq, ← sameRule] at otherProduct
      exact ⟨other, otherBuilt, product.sameChances otherProduct alike⟩

/-- Unfoldings of alike models have the same chances, or they are refused for the same reason. -/
theorem build_endAlike (alike : first.Alike second) (source : S) (targets : LabelSet S)
    (bound : Rat) (settings : UnfoldSettings Rat) :
    EndAlike SameChances (build first source targets bound settings)
      (build second source targets bound settings) := by
  cases built : build first source targets bound settings with
  | ok unfolding =>
      obtain ⟨other, otherBuilt, same⟩ := exists_build_of_alike alike built
      rw [otherBuilt]
      exact .ok same
  | error error =>
      cases otherBuilt : build second source targets bound settings with
      | ok other =>
          obtain ⟨unfolding, builtToo, -⟩ := exists_build_of_alike alike.symm otherBuilt
          rw [built] at builtToo
          cases builtToo
      | error otherError =>
          have sameLoss := remainingLoss_endAlike alike targets settings.pruning
          rcases build_error_cases built with ⟨cycle, lossEq, rfl⟩ | ⟨⟨_, lossEq⟩, rfl⟩ <;>
            rcases build_error_cases otherBuilt with
              ⟨otherCycle, otherLossEq, rfl⟩ | ⟨⟨_, otherLossEq⟩, rfl⟩ <;>
            rw [lossEq, otherLossEq] at sameLoss <;> cases sameLoss <;> exact .error _

end Building

end Unfolding

end MarkovDecision
