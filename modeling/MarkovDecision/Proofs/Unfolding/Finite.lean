import Mathlib.Data.Rat.Floor
import Mathlib.Order.Interval.Set.Basic
import Mathlib.Data.Set.Finite.Lattice
import Mathlib.Order.Interval.Finset.Basic
import Mathlib.Data.Int.Interval
import MarkovDecision.Proofs.Tours
import MarkovDecision.Proofs.Unfolding.PruningModes

/-!
# Finite unfoldings

An unfolding is finite if the values of each state lie between two bounds, because all of them
differ from the first value by a multiple of what the weights have in common.  By the threshold
the bound of the budget is the lower one, and there is an upper one if no cycle outside the targets
gains.  By the distances, the value less the distance is between the bound and where it started.
Then no limit of states that is large enough gets in the way.
-/

namespace MarkovDecision

open Std (TransOrd LawfulEqOrd)

/-- Finitely many numbers are multiples of one unit fraction. -/
theorem exists_common_denominator (numbers : List Rat) :
    ∃ denominator : Nat, 0 < denominator ∧
      ∀ number ∈ numbers, ∃ numerator : Int, number * denominator = numerator := by
  induction numbers with
  | nil => exact ⟨1, Nat.one_pos, by simp⟩
  | cons first rest ih =>
      obtain ⟨denominator, positive, multiples⟩ := ih
      refine ⟨first.den * denominator, Nat.mul_pos first.den_pos positive, ?_⟩
      intro number member
      rcases List.mem_cons.mp member with rfl | later
      · refine ⟨number.num * denominator, ?_⟩
        push_cast
        rw [← mul_assoc, Rat.mul_den_eq_num]
      · obtain ⟨numerator, isMultiple⟩ := multiples number later
        refine ⟨first.den * numerator, ?_⟩
        push_cast
        rw [← isMultiple]
        ring

theorem finite_multiples {denominator : Nat} (positive : 0 < denominator) (low high : Rat) :
    {number : Rat | low ≤ number ∧ number ≤ high ∧
      ∃ numerator : Int, number * denominator = numerator}.Finite := by
  have denominatorPos : (0 : Rat) < denominator := by exact_mod_cast positive
  refine ((Set.finite_Icc ⌊low * denominator⌋ ⌈high * denominator⌉).image
    fun numerator : Int => (numerator : Rat) / denominator).subset ?_
  rintro number ⟨lowLe, leHigh, numerator, isMultiple⟩
  refine ⟨numerator, ⟨?_, ?_⟩, ?_⟩
  · apply Int.floor_le_iff.mpr
    have below := mul_le_mul_of_nonneg_right lowLe denominatorPos.le
    rw [isMultiple] at below
    linarith
  · apply Int.le_ceil_iff.mpr
    have above := mul_le_mul_of_nonneg_right leHigh denominatorPos.le
    rw [isMultiple] at above
    linarith
  · dsimp only
    rw [← isMultiple]
    exact mul_div_cancel_right₀ number denominatorPos.ne'

namespace Model

variable {S A : Type} [Ord S] {model : Model S A Rat} {targets : LabelSet S}

/-- What tours gain is a multiple of what the weights have in common. -/
theorem Tour.multiple {denominator : Nat}
    (multiples : ∀ state, ∀ transition ∈ model.outgoing state, ∃ numerator : Int,
      transition.weight * denominator = numerator) {start stop : S} {gain : Rat}
    (tour : model.Tour targets start stop gain) :
    ∃ numerator : Int, gain * denominator = numerator := by
  induction tour with
  | stay => exact ⟨0, by simp⟩
  | @step state gain transition _ _ leaves ih =>
      obtain ⟨numerator, isMultiple⟩ := ih
      obtain ⟨added, addedMultiple⟩ := multiples state transition leaves
      refine ⟨numerator + added, ?_⟩
      rw [add_mul, isMultiple, addedMultiple]
      push_cast
      rfl

end Model

namespace Unfolding

variable {S A : Type} [Ord S] {model : Model S A Rat} {targets : LabelSet S}
  {keep : S → Rat → Bool} {source : S} {initialValue : Rat} {state : S} {value : Rat}

/-- A kept pair is at the end of a tour that gained what its value is above the first one. -/
theorem KeptPair.tour [LawfulEqOrd S]
    (isKept : KeptPair model targets keep source initialValue state value) :
    model.Tour targets source state (value - initialValue) := by
  induction isKept with
  | start => simpa using Model.Tour.stay
  | @step state value transition _ noTarget leaves _ ih =>
      rw [add_sub_right_comm]
      exact Model.Tour.step ih noTarget leaves
  | same _ sameNode ih =>
      cases LawfulEqOrd.eq_of_compare sameNode
      exact ih

/-- The values of every state are between two bounds. -/
def Confined (model : Model S A Rat) (targets : LabelSet S) (keep : S → Rat → Bool) (source : S)
    (initialValue : Rat) : Prop :=
  ∀ state, ∃ low high, ∀ value, KeptPair model targets keep source initialValue state value →
    low ≤ value ∧ value ≤ high

variable [TransOrd S] [LawfulEqOrd S] [Ord A]

theorem Confined.finite (confined : Confined model targets keep source initialValue)
    (wellFormed : model.WellFormed) :
    {node : UnfoldedState S Rat | ∃ state value, node = .pair state value ∧
      KeptPair model targets keep source initialValue state value}.Finite := by
  obtain ⟨denominator, positive, multiples⟩ := exists_common_denominator
    (model.transitionsByState.map fun entry => entry.2.weight)
  have weightMultiples : ∀ state, ∀ transition ∈ model.outgoing state, ∃ numerator : Int,
      transition.weight * denominator = numerator := fun state transition leaves =>
    multiples _ (List.mem_map.mpr ⟨(state, transition),
      (wellFormed.mem_transitionsByState_iff state transition).mpr leaves, rfl⟩)
  have ofState (state : S) :
      {value | KeptPair model targets keep source initialValue state value}.Finite := by
    obtain ⟨low, high, between⟩ := confined state
    refine ((finite_multiples positive (low - initialValue) (high - initialValue)).image
      fun gain => initialValue + gain).subset ?_
    intro value isKept
    obtain ⟨lowLe, leHigh⟩ := between value isKept
    exact ⟨value - initialValue, ⟨by linarith, by linarith, isKept.tour.multiple weightMultiples⟩,
      by ring⟩
  have states : {state | state ∈ source :: model.states.toList}.Finite := List.finite_toSet _
  refine (states.biUnion fun state _ => (ofState state).image (UnfoldedState.pair state)).subset ?_
  rintro node ⟨state, value, rfl, isKept⟩
  have stateMem : state ∈ source :: model.states.toList := by
    induction isKept with
    | start => exact List.mem_cons_self
    | step _ _ leaves _ _ =>
        exact List.mem_cons_of_mem _
          ((wellFormed.mem_states_iff _).mpr (wellFormed.closed _ _ leaves))
    | same _ sameNode ih =>
        cases LawfulEqOrd.eq_of_compare sameNode
        exact ih
  exact Set.mem_biUnion stateMem ⟨value, isKept, rfl⟩

theorem Confined.exists_limit [TransOrd A]
    (confined : Confined model targets keep source initialValue) (wellFormed : model.WellFormed) :
    ∃ enough, ∀ limit, enough ≤ limit →
      ¬Outgrows model targets keep source initialValue limit := by
  have finite := (confined.finite wellFormed).insert .bottom
  refine ⟨finite.toFinset.card, fun limit enough => ?_⟩
  rintro ⟨nodes, distinct, belongs, tooMany⟩
  have nodup : nodes.Nodup := by
    refine distinct.imp ?_
    rintro first second apart rfl
    exact apart Std.ReflCmp.compare_self
  have within : nodes ⊆ finite.toFinset.toList := by
    intro node member
    rw [Finset.mem_toList, Set.Finite.mem_toFinset]
    exact belongs node member
  have countLe := nodup.length_le_of_subset within
  rw [Finset.length_toList] at countLe
  omega

theorem confined_threshold (noGain : model.NoGainingCycle targets)
    (wellFormed : model.WellFormed) (source : S) (bound initialValue : Rat) :
    Confined model targets (keeps none bound) source initialValue := by
  obtain ⟨most, gainLe⟩ := noGain.exists_gain_le wellFormed
  refine fun state => ⟨min initialValue bound, initialValue + most, fun value isKept => ⟨?_, ?_⟩⟩
  · rcases isKept.start_or_keeps (respectsKeys_keeps none bound) with isStart | kept
    · cases isStart
      exact min_le_left _ _
    · exact (min_le_right _ _).trans ((keeps_none_iff bound state value).mp kept)
  · have gained := gainLe source state _ isKept.tour
    linarith

section Distances

variable {distances : Distances S Rat} {bound : Rat} (wellFormed : model.WellFormed)
  (measured : model.distancesToTargets targets = .ok distances)
include wellFormed measured

/-- By the distances, the value less the distance stays between the bound and where it
started. -/
theorem KeptPair.less_distance_between
    (isKept : KeptPair model targets (keeps (some distances) bound) source initialValue state
      value) :
    UnfoldedState.pair state value = .pair source initialValue ∨
      ∃ own first, recorded distances state = some own ∧ recorded distances source = some first ∧
        bound ≤ value - own ∧ value - own ≤ initialValue - first := by
  induction isKept with
  | start => exact Or.inl rfl
  | @step state value transition _ noTarget leaves kept ih =>
      right
      obtain ⟨next, nextFound, within⟩ := keeps_some_iff.mp kept
      obtain ⟨own, ownFound, ownLe⟩ := wellFormed.potential_distancesToTargets measured state
        transition leaves noTarget next nextFound
      rcases ih with isStart | ⟨distance, first, found, firstFound, -, below⟩
      · cases isStart
        exact ⟨next, own, nextFound, ownFound, within, by linarith⟩
      · rw [ownFound, Option.some.injEq] at found
        exact ⟨next, first, nextFound, firstFound, within, by linarith⟩
  | same _ sameNode ih =>
      cases LawfulEqOrd.eq_of_compare sameNode
      exact ih

theorem confined_shortestPath (source : S) (initialValue : Rat) :
    Confined model targets (keeps (some distances) bound) source initialValue := by
  intro state
  let own := (recorded distances state).getD 0
  let first := (recorded distances source).getD 0
  refine ⟨min initialValue (bound + own), max initialValue (initialValue - first + own),
    fun value isKept => ?_⟩
  rcases isKept.less_distance_between wellFormed measured with
    isStart | ⟨distance, firstDistance, found, firstFound, above, below⟩
  · cases isStart
    exact ⟨min_le_left _ _, le_max_left _ _⟩
  · have ownEq : own = distance := by simp [own, found]
    have firstEq : first = firstDistance := by simp [first, firstFound]
    rw [ownEq, firstEq]
    exact ⟨(min_le_right _ _).trans (by linarith), le_trans (by linarith) (le_max_right _ _)⟩

end Distances

/-- Unfolding ends with a result once the limit of states is large enough: with the distances as
the pruning rule whenever there are distances, and with the threshold whenever no cycle outside
the targets gains. -/
theorem exists_sufficient_limit [TransOrd A] (wellFormed : model.WellFormed) (source : S)
    (targets : LabelSet S) (bound initialValue : Rat) :
    (∀ distances, model.distancesToTargets targets = .ok distances →
      ∃ enough, ∀ maxStates, enough ≤ maxStates → ∃ unfolding,
        build model source targets bound ⟨.shortestPath, maxStates, initialValue⟩ =
          .ok unfolding) ∧
    (model.NoGainingCycle targets →
      ∃ enough, ∀ maxStates, enough ≤ maxStates → ∃ unfolding,
        build model source targets bound ⟨.threshold, maxStates, initialValue⟩ =
          .ok unfolding) := by
  constructor
  · intro distances measured
    have lossEq : remainingLoss model targets .shortestPath = .ok (some distances) := by
      rw [remainingLoss, measured]
      rfl
    have isConfined : Confined model targets (keeps (some distances) bound) source initialValue :=
      confined_shortestPath wellFormed measured source initialValue
    obtain ⟨enough, fits⟩ := isConfined.exists_limit wellFormed
    exact ⟨enough, fun maxStates isEnough => exists_build_eq_ok lossEq (fits maxStates isEnough)⟩
  · intro noGain
    have lossEq : remainingLoss model targets .threshold = .ok none := rfl
    obtain ⟨enough, fits⟩ :=
      (confined_threshold noGain wellFormed source bound initialValue).exists_limit wellFormed
    exact ⟨enough, fun maxStates isEnough => exists_build_eq_ok lossEq (fits maxStates isEnough)⟩

/-- A state that gains one, from which one way back gives it up again and the other one leads to
a target at the same cost. -/
def thereAndBack : Model Nat Nat Rat :=
  ((Model.empty.addTransition 0 0 1 1 1).addTransition 1 0 0 1 (-1)).addTransition 1 1 2 1 (-1)

theorem wellFormed_thereAndBack : thereAndBack.WellFormed :=
  ((Model.wellFormed_empty.addTransition 0 0 1 1 1).addTransition 1 0 0 1 (-1)).addTransition
    1 1 2 1 (-1)

theorem noGainingCycle_thereAndBack : thereAndBack.NoGainingCycle {2} := by
  let level (state : Nat) : Rat := if state = 1 then 1 else 0
  have belowLevel := wellFormed_thereAndBack.forall_outgoing
    (show ∀ state ∈ thereAndBack.states.toList, ∀ transition ∈ thereAndBack.outgoing state,
      transition.weight ≤ level transition.target - level state by decide +kernel)
  exact Model.noGainingCycle_of_level level fun state _ => belowLevel state

/-- Although it can be gone round for ever without a loss, `thereAndBack` is unfolded by both
rules. -/
theorem exists_sufficient_limit_thereAndBack :
    thereAndBack.NoGainingCycle {2} ∧
      (∃ distances, thereAndBack.distancesToTargets {2} = .ok distances) ∧
      ∀ pruning, ∃ enough, ∀ maxStates, enough ≤ maxStates → ∃ unfolding,
        build thereAndBack 0 {2} (-1) ⟨pruning, maxStates, 0⟩ = .ok unfolding := by
  obtain ⟨distances, measured⟩ := exists_eq_ok
    (show (thereAndBack.distancesToTargets {2}).isOk = true by decide +kernel)
  obtain ⟨byDistance, byThreshold⟩ :=
    exists_sufficient_limit wellFormed_thereAndBack 0 {2} (-1) 0
  refine ⟨noGainingCycle_thereAndBack, ⟨distances, measured⟩, fun pruning => ?_⟩
  cases pruning with
  | threshold => exact byThreshold noGainingCycle_thereAndBack
  | shortestPath => exact byDistance distances measured

end Unfolding

end MarkovDecision
