import MarkovDecision.Proofs.Reachability.Limit
import MarkovDecision.Proofs.Unfolding.Budget
import MarkovDecision.Proofs.Unfolding.Resolved

/-!
# Success in the unfolded model

A pair outside the targets is worth the greatest share of the actions of its state, a share being
a sum over transitions.  So the values of two unfoldings of a model can be compared transition by
transition, by induction on the number of steps: they differ where one of them drops a pair that
the other one keeps, and nothing is lost with a pair that is worth nothing.
-/

namespace MarkovDecision

open Std (TreeMap TransOrd LawfulEqOrd)

namespace Unfolding

variable {S A : Type} [Ord S] [Ord A]

/-- The greatest probability of success from a node of the unfolded model. -/
noncomputable def success (unfolding : Unfolding S A Rat) (label : UnfoldedState S Rat) : ℝ :=
  unfolding.model.limitValue unfolding.targets label

/-- What an action of a pair is worth, by the values of the nodes that its transitions lead to. -/
def stepShare (model : Model S A Rat) (keep : S → Rat → Bool) (state : S) (value : Rat) (action : A)
    (values : UnfoldedState S Rat → Rat) : Rat :=
  (((model.outgoing state).filter (·.isUnder action)).map fun transition =>
    transition.probability * values (destination keep value transition)).sum

section Shares

variable [TransOrd A] {model : Model S A Rat} {keep : S → Rat → Bool} {state : S} {value : Rat}

theorem stepShare_congr {action other : A} (same : compare action other = .eq)
    (values : UnfoldedState S Rat → Rat) :
    stepShare model keep state value action values =
      stepShare model keep state value other values := by
  have sameTest : (fun transition : Transition S A Rat => transition.isUnder action) =
      fun transition => transition.isUnder other := by
    funext transition
    rw [Transition.isUnder, Transition.isUnder, sameLabel, sameLabel,
      Std.TransCmp.congr_right same]
  rw [stepShare, stepShare, sameTest]

omit [TransOrd A] in
theorem stepShare_le_stepShare {other : S → Rat → Bool} {action : A}
    {first second : UnfoldedState S Rat → Rat}
    (nonneg : ∀ transition ∈ model.outgoing state, 0 ≤ transition.probability)
    (below : ∀ transition ∈ model.outgoing state,
      first (destination keep value transition) ≤ second (destination other value transition)) :
    stepShare model keep state value action first ≤
      stepShare model other state value action second := by
  apply List.sum_le_sum
  intro transition taken
  have leaves := List.mem_of_mem_filter taken
  exact mul_le_mul_of_nonneg_left (below transition leaves) (nonneg transition leaves)

end Shares

variable [TransOrd S] [LawfulEqOrd S] [TransOrd A] {model : Model S A Rat} {targets : LabelSet S}
  {keep other : S → Rat → Bool} {source : S} {initialValue : Rat} {state : S} {value : Rat}

section Values

variable {unfolding : Unfolding S A Rat}
  (product : IsProduct model targets keep source initialValue unfolding)
include product

omit [LawfulEqOrd S] in
theorem IsProduct.horizonValue_bottom (steps : Nat) :
    unfolding.model.horizonValue unfolding.targets steps .bottom = 0 := by
  have noTarget : ¬unfolding.targets.contains .bottom = true := by
    intro isTarget
    obtain ⟨state, value, impossible, -⟩ := (product.targets_iff .bottom).mp isTarget
    cases impossible
  induction steps with
  | zero => exact Model.horizonValue_zero_of_not_target _ noTarget
  | succ steps ih =>
      rw [Model.horizonValue_succ_of_not_target _ noTarget]
      apply greatest_eq_zero
      intro share member
      obtain ⟨offer, offered, rfl⟩ := List.mem_map.mp member
      apply List.sum_eq_zero
      intro part partMem
      obtain ⟨entry, entryMem, rfl⟩ := List.mem_map.mp partMem
      obtain ⟨-, -, isBottom⟩ :=
        (product.bottomEntry _ _ _).mp (ActionTable.probability?_of_mem offered entryMem)
      rw [isBottom, ih, mul_zero]

omit [LawfulEqOrd S] in
theorem IsProduct.success_bottom : unfolding.success .bottom = 0 := by
  simp [success, Model.limitValue, product.horizonValue_bottom]

variable (isKept : KeptPair model targets keep source initialValue state value)
include isKept

omit [TransOrd S] [LawfulEqOrd S] [TransOrd A] in
theorem IsProduct.contains_of_keptPair : unfolding.model.contains (.pair state value) = true :=
  (product.contains_iff _).mpr (Or.inr ⟨state, value, rfl, isKept⟩)

omit [TransOrd S] [LawfulEqOrd S] [TransOrd A] in
theorem IsProduct.horizonValue_of_target (isTarget : targets.contains state = true) (steps : Nat) :
    unfolding.model.horizonValue unfolding.targets steps (.pair state value) = 1 :=
  Model.horizonValue_of_target _ ((product.contains_targets_iff isKept).mpr isTarget) steps

variable (noTarget : ¬targets.contains state = true)
include noTarget

omit [TransOrd S] [LawfulEqOrd S] [TransOrd A] in
theorem IsProduct.horizonValue_zero :
    unfolding.model.horizonValue unfolding.targets 0 (.pair state value) = 0 :=
  Model.horizonValue_zero_of_not_target _ (mt (product.contains_targets_iff isKept).mp noTarget)

variable (wellFormed : model.WellFormed) (respects : RespectsKeys keep)
include wellFormed respects

theorem IsProduct.greatest_step (values : UnfoldedState S Rat → Rat) :
    greatest ((unfolding.model.actions (.pair state value)).toList.map fun offer =>
        expected offer.2 values) =
      greatest ((model.actions state).toList.map fun offer =>
        stepShare model keep state value offer.1 values) := by
  apply greatest_congr
  intro share
  constructor
  · intro member
    obtain ⟨offer, offered, rfl⟩ := List.mem_map.mp member
    have found := ActionTable.getElem?_of_mem offered
    obtain ⟨action, isTake, isAction⟩ := (product.stepActions isKept noTarget offer.1).mp
      (ActionTable.contains_of_mem offered)
    rw [isTake] at found
    obtain ⟨original, originalMem, sameAction, -⟩ := ActionTable.exists_offer isAction
    refine List.mem_map.mpr ⟨original, originalMem, ?_⟩
    rw [stepShare_congr sameAction]
    exact (product.expected_step wellFormed respects isKept noTarget found values).symm
  · intro member
    obtain ⟨original, originalMem, rfl⟩ := List.mem_map.mp member
    have present := (product.stepActions isKept noTarget (.take original.1)).mpr
      ⟨original.1, rfl, ActionTable.contains_of_mem originalMem⟩
    obtain ⟨offer, offered, -, found⟩ := ActionTable.exists_offer present
    exact List.mem_map.mpr ⟨offer, offered,
      product.expected_step wellFormed respects isKept noTarget found values⟩

/-- With a step left, a pair is worth the greatest share of the actions of its state. -/
theorem IsProduct.horizonValue_succ (steps : Nat) :
    unfolding.model.horizonValue unfolding.targets (steps + 1) (.pair state value) =
      greatest ((model.actions state).toList.map fun offer =>
        stepShare model keep state value offer.1
          (unfolding.model.horizonValue unfolding.targets steps)) := by
  rw [Model.horizonValue_succ_of_not_target _
    (mt (product.contains_targets_iff isKept).mp noTarget)]
  exact product.greatest_step isKept noTarget wellFormed respects _

end Values

omit [TransOrd S] [Ord A] [TransOrd A] in
theorem KeptPair.start_or_keeps (respects : RespectsKeys keep)
    (isKept : KeptPair model targets keep source initialValue state value) :
    UnfoldedState.pair state value = .pair source initialValue ∨ keep state value = true := by
  induction isKept with
  | start => exact Or.inl rfl
  | step _ _ _ kept _ => exact Or.inr kept
  | same _ sameNode ih =>
      rcases ih with isStart | kept
      · exact Or.inl ((LawfulEqOrd.eq_of_compare sameNode).symm.trans isStart)
      · exact Or.inr (respects sameNode ▸ kept)

omit [TransOrd S] [LawfulEqOrd S] [TransOrd A] in
theorem KeptPair.mono (wellFormed : model.WellFormed)
    (keepsMore : ∀ state value, model.contains state = true → keep state value = true →
      other state value = true)
    (isKept : KeptPair model targets keep source initialValue state value) :
    KeptPair model targets other source initialValue state value := by
  induction isKept with
  | start => exact KeptPair.start
  | @step state value transition _ noTarget leaves kept ih =>
      exact KeptPair.step ih noTarget leaves
        (keepsMore _ _ (wellFormed.closed state transition leaves) kept)
  | same _ sameNode ih => exact KeptPair.same ih sameNode

/-- What the first rule keeps and the other one drops is worth nothing in the unfolding by the
first. -/
def DropsWorthless (model : Model S A Rat) (targets : LabelSet S) (keep other : S → Rat → Bool)
    (source : S) (initialValue : Rat) (unfolding : Unfolding S A Rat) : Prop :=
  ∀ steps state value, model.contains state = true →
    KeptPair model targets keep source initialValue state value → keep state value = true →
    ¬other state value = true →
      unfolding.model.horizonValue unfolding.targets steps (.pair state value) = 0

section Comparison

variable {first second : Unfolding S A Rat}
  (firstProduct : IsProduct model targets keep source initialValue first)
  (secondProduct : IsProduct model targets other source initialValue second)
  (wellFormed : model.WellFormed) (proper : model.Substochastic)
  (respects : RespectsKeys keep) (otherRespects : RespectsKeys other)
include firstProduct secondProduct wellFormed proper respects otherRespects

/-- A pair of two unfoldings is worth no more in the first one, if the second one drops nothing
of worth. -/
theorem IsProduct.horizonValue_le
    (dropsWorthless : DropsWorthless model targets keep other source initialValue first)
    (steps : Nat) (isKept : KeptPair model targets keep source initialValue state value)
    (isOther : KeptPair model targets other source initialValue state value) :
    first.model.horizonValue first.targets steps (.pair state value) ≤
      second.model.horizonValue second.targets steps (.pair state value) := by
  have secondProper := secondProduct.substochastic wellFormed otherRespects proper
  have secondNonneg := secondProper.horizonValue_nonneg second.targets
  induction steps generalizing state value with
  | zero =>
      by_cases isTarget : targets.contains state = true
      · rw [firstProduct.horizonValue_of_target isKept isTarget,
          secondProduct.horizonValue_of_target isOther isTarget]
      · rw [firstProduct.horizonValue_zero isKept isTarget]
        exact secondNonneg 0 _
  | succ steps ih =>
      by_cases isTarget : targets.contains state = true
      · rw [firstProduct.horizonValue_of_target isKept isTarget,
          secondProduct.horizonValue_of_target isOther isTarget]
      · rw [firstProduct.horizonValue_succ isKept isTarget wellFormed respects,
          secondProduct.horizonValue_succ isOther isTarget wellFormed otherRespects]
        apply greatest_map_le
        intro offer _
        apply stepShare_le_stepShare
        · exact fun transition leaves => proper.transition_nonneg wellFormed leaves
        · intro transition leaves
          by_cases kept : keep transition.target (value + transition.weight) = true
          · have nextKept := KeptPair.step isKept isTarget leaves kept
            rw [destination, if_pos kept]
            by_cases otherKept : other transition.target (value + transition.weight) = true
            · rw [destination, if_pos otherKept]
              exact ih nextKept (KeptPair.step isOther isTarget leaves otherKept)
            · rw [dropsWorthless steps _ _ (wellFormed.closed state transition leaves) nextKept kept
                otherKept]
              exact secondNonneg steps _
          · rw [destination, if_neg kept, firstProduct.horizonValue_bottom]
            exact secondNonneg steps _

theorem IsProduct.success_le
    (dropsWorthless : DropsWorthless model targets keep other source initialValue first)
    (isKept : KeptPair model targets keep source initialValue state value)
    (isOther : KeptPair model targets other source initialValue state value) :
    first.success (.pair state value) ≤ second.success (.pair state value) := by
  have secondProper := secondProduct.substochastic wellFormed otherRespects proper
  apply ciSup_mono (secondProper.bddAbove_horizonValue second.targets _)
  intro steps
  exact_mod_cast firstProduct.horizonValue_le secondProduct wellFormed proper respects
    otherRespects dropsWorthless steps isKept isOther

end Comparison

end Unfolding

end MarkovDecision
