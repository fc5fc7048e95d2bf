import Mathlib.Order.Filter.AtTopBot.Archimedean
import Mathlib.Order.Filter.Finite
import MarkovDecision.Proofs.LeastCosts
import MarkovDecision.Proofs.Learning.QLearning

/-!
# Value iteration finds distances

Where nothing is left to chance and every step outside the targets costs a toll, to take as many
steps as one likes is to go to a target and to stay there.  At first that need not be so: a few
cheap steps in a circle may cost less than an expensive way to a target.  But the tolls of a walk
that stays outside add up with its length, so that after enough sweeps of value iteration every
state at a finite distance to the targets is worth that distance with the sign changed.
-/

namespace MarkovDecision

open Std (TransOrd LawfulEqOrd OrientedCmp ReflCmp)

namespace Model

variable {S A : Type} [Ord S] [Ord A]

/-- Every action leads to one state for certain.  Outside the targets there is an action in every
state, and all of them cost something; the targets stay where they are for nothing. -/
structure Tolled (model : Model S A Rat) (targets : LabelSet S) : Prop where
  deterministic : model.Deterministic
  costs : ∀ state, ¬targets.contains state = true → ∀ transition ∈ model.outgoing state,
    transition.weight < 0
  goesOn : ∀ state, model.contains state = true → ¬targets.contains state = true →
    (model.actions state).toList ≠ []
  stays : ∀ state, targets.contains state = true → ∀ transition ∈ model.outgoing state,
    transition.target = state ∧ transition.weight = 0

section Tolls

variable [TransOrd S] [LawfulEqOrd S] [TransOrd A] {model : Model S A Rat} {targets : LabelSet S}
  (wellFormed : model.WellFormed) (discount : Rat)
include wellFormed

section Certain

variable (deterministic : model.Deterministic)
include deterministic

theorem WellFormed.promise_eq_of_transition {state : S} {transition : Transition S A Rat}
    (leaves : transition ∈ model.outgoing state) {offer : A × Distribution S Rat}
    (offered : offer ∈ (model.actions state).toList)
    (sameAction : compare transition.action offer.1 = .eq) (values : S → Rat) :
    model.promise discount values state offer =
      transition.weight + discount * values transition.target := by
  have found := wellFormed.transition?_of_mem leaves ⟨sameAction, ReflCmp.compare_self⟩
  have isNext : offer.2.contains transition.target = true := by
    rw [Std.TreeMap.contains_eq_isSome_getElem?,
      wellFormed.getElem?_distribution (ActionTable.getElem?_of_mem offered), Model.probability?,
      found]
    rfl
  have offeredEq := ActionTable.getElem?_of_mem offered
  rw [deterministic.promise_eq offeredEq isNext, weight?_some, found]
  rfl

/-- A transition promises no more than a further step is worth. -/
theorem WellFormed.transition_le_bestReturn {state : S} {transition : Transition S A Rat}
    (leaves : transition ∈ model.outgoing state) (steps : Nat) :
    transition.weight + discount * model.bestReturn discount steps transition.target ≤
      model.bestReturn discount (steps + 1) state := by
  obtain ⟨offer, offered, sameAction, -⟩ := ActionTable.exists_offer
    ((contains_actions model state transition.action).mpr
      ⟨transition, leaves, ReflCmp.compare_self⟩)
  rw [← wellFormed.promise_eq_of_transition discount deterministic leaves offered
    (OrientedCmp.eq_symm sameAction)]
  exact promise_le_bestReturn offered steps

theorem WellFormed.exists_transition_eq_bestReturn {state : S}
    (hasActions : (model.actions state).toList ≠ []) (steps : Nat) :
    ∃ transition ∈ model.outgoing state, model.bestReturn discount (steps + 1) state =
      transition.weight + discount * model.bestReturn discount steps transition.target := by
  have somePromise : (model.actions state).toList.map
      (model.promise discount (model.bestReturn discount steps) state) ≠ [] :=
    mt List.map_eq_nil_iff.mp hasActions
  obtain ⟨offer, offered, isGreatest⟩ := List.mem_map.mp (greatest_mem somePromise)
  obtain ⟨transition, leaves, sameAction⟩ := (contains_actions model state offer.1).mp
    (ActionTable.contains_of_mem offered)
  refine ⟨transition, leaves, ?_⟩
  rw [← wellFormed.promise_eq_of_transition discount deterministic leaves offered sameAction,
    isGreatest]
  rfl

end Certain

variable (tolled : model.Tolled targets)
include tolled

theorem Tolled.bestReturn_target {state : S} (isTarget : targets.contains state = true)
    (steps : Nat) : model.bestReturn discount steps state = 0 := by
  induction steps with
  | zero => rfl
  | succ steps ih =>
      by_cases noActions : (model.actions state).toList = []
      · exact bestReturn_of_no_actions noActions (steps + 1)
      · obtain ⟨transition, leaves, returnEq⟩ :=
          wellFormed.exists_transition_eq_bestReturn discount tolled.deterministic noActions steps
        obtain ⟨targetEq, isFree⟩ := tolled.stays state isTarget transition leaves
        rw [returnEq, targetEq, isFree, ih, mul_zero, add_zero]

/-- A walk to a target can be taken as soon as there are steps enough, and then it costs no more
than its cost. -/
theorem Tolled.eventually_le_bestReturn {state : S} {cost : Rat}
    (approach : model.Approach targets state cost) :
    ∀ᶠ steps in Filter.atTop, -cost ≤ model.bestReturn 1 steps state := by
  rw [Filter.eventually_atTop]
  induction approach with
  | arrived isTarget known =>
      exact ⟨0, fun steps _ => by rw [tolled.bestReturn_target wellFormed 1 isTarget, neg_zero]⟩
  | @step state cost transition _ leaves _ ih =>
      obtain ⟨enough, atLeast⟩ := ih
      refine ⟨enough + 1, fun steps enoughLe => ?_⟩
      obtain ⟨steps, rfl⟩ := Nat.exists_eq_add_of_le' (Nat.le_of_add_left_le enoughLe)
      have onward := atLeast steps (by omega)
      have promised :=
        wellFormed.transition_le_bestReturn 1 tolled.deterministic leaves steps
      linarith

omit [TransOrd A] in
theorem Tolled.exists_toll : ∃ toll : Rat, 0 < toll ∧ ∀ state, ¬targets.contains state = true →
    ∀ transition ∈ model.outgoing state, transition.weight ≤ -toll := by
  obtain ⟨toll, tollPos, isBelow⟩ :=
    exists_pos_below (model.transitionsByState.map fun entry => -entry.2.weight)
  refine ⟨toll, tollPos, fun state noTarget transition leaves => ?_⟩
  have listed : (state, transition) ∈ model.transitionsByState :=
    (wellFormed.mem_transitionsByState_iff state transition).mpr leaves
  have atLeast := isBelow (-transition.weight) (List.mem_map.mpr ⟨_, listed, rfl⟩)
    (neg_pos.mpr (tolled.costs state noTarget transition leaves))
  linarith

variable {distances : Distances S Rat}
  (measured : model.distancesToTargets targets = .ok distances)
include measured

/-- Some steps either all cost a toll, or they come to a target and cost at least the distance. -/
theorem Tolled.bestReturn_le {toll : Rat}
    (costsToll : ∀ state, ¬targets.contains state = true → ∀ transition ∈ model.outgoing state,
      transition.weight ≤ -toll) (steps : Nat) {state : S} (known : model.contains state = true) :
    model.bestReturn 1 steps state ≤ -(steps * toll) ∨
      ∃ distance, recorded distances state = some distance ∧
        model.bestReturn 1 steps state ≤ -distance := by
  induction steps generalizing state with
  | zero => exact Or.inl (by simp [bestReturn])
  | succ steps ih =>
      by_cases isTarget : targets.contains state = true
      · have isZero := wellFormed.recorded_target measured isTarget known
        exact Or.inr ⟨0, isZero, by rw [tolled.bestReturn_target wellFormed 1 isTarget, neg_zero]⟩
      · obtain ⟨transition, leaves, returnEq⟩ := wellFormed.exists_transition_eq_bestReturn 1
          tolled.deterministic (tolled.goesOn state known isTarget) steps
        rw [returnEq, one_mul]
        have targetKnown := wellFormed.closed state transition leaves
        rcases ih targetKnown with outside | ⟨distance, found, below⟩
        · left
          have paid := costsToll state isTarget transition leaves
          push_cast
          linarith
        · right
          obtain ⟨own, ownFound, ownLe⟩ := wellFormed.potential_distancesToTargets measured state
            transition leaves isTarget distance found
          exact ⟨own, ownFound, by linarith⟩

/-- A state at a finite distance is worth that distance, with the sign changed, when there are steps
enough. -/
theorem Tolled.eventually_bestReturn_eq {state : S} {distance : Rat}
    (found : recorded distances state = some distance) :
    ∀ᶠ steps in Filter.atTop, model.bestReturn 1 steps state = -distance := by
  have known := wellFormed.contains_of_distance measured found
  have approach := ((wellFormed.distance_eq_iff_isLeast measured state distance).mp found).1
  obtain ⟨toll, tollPos, costsToll⟩ := tolled.exists_toll wellFormed
  have paidUp : ∀ᶠ steps : Nat in Filter.atTop, distance / toll ≤ steps :=
    tendsto_natCast_atTop_atTop.eventually_ge_atTop _
  filter_upwards [tolled.eventually_le_bestReturn wellFormed approach, paidUp] with steps atLeast
    enough
  refine le_antisymm ?_ atLeast
  rcases tolled.bestReturn_le wellFormed measured costsToll steps known with
    outside | ⟨own, ownFound, below⟩
  · rw [div_le_iff₀ tollPos] at enough
    exact outside.trans (neg_le_neg enough)
  · rw [found, Option.some.injEq] at ownFound
    rwa [ownFound]

omit measured in
/-- Where every step outside the targets costs a toll, there are distances to the targets, and
after enough sweeps value iteration without discount finds the finite ones, with the sign
changed. -/
theorem Tolled.valueIteration_eq_neg_distance :
    ∃ distances, model.distancesToTargets targets = .ok distances ∧
      ∃ enough, ∀ steps, enough ≤ steps → ∀ (state : S) (distance : Rat),
        distances[state]? = some (some distance) →
          (model.valueIteration 1 steps).1[state]? = some (-distance) := by
  have neverGains : model.NeverGains targets := fun state noTarget transition leaves =>
    (tolled.costs state noTarget transition leaves).le
  obtain ⟨distances, measured⟩ := neverGains.exists_distancesToTargets wellFormed
  refine ⟨distances, measured, ?_⟩
  have together : ∀ᶠ steps in Filter.atTop, ∀ state ∈ {state | state ∈ model.states.toList},
      ∀ distance : Rat, recorded distances state = some distance →
        model.bestReturn 1 steps state = -distance := by
    rw [Filter.eventually_all_finite (List.finite_toSet _)]
    intro state _
    cases found : recorded distances state with
    | none => exact Filter.Eventually.of_forall fun steps distance absent => by cases absent
    | some distance =>
        filter_upwards [tolled.eventually_bestReturn_eq wellFormed measured found] with steps isEq
        rintro other ⟨⟩
        exact isEq
  obtain ⟨enough, atLeast⟩ := Filter.eventually_atTop.mp together
  refine ⟨enough, fun steps enoughLe state distance listed => ?_⟩
  have found := (recorded_eq_some_iff distances state distance).mpr listed
  have known := wellFormed.contains_of_distance measured found
  rw [wellFormed.getElem?_valueIteration, if_pos known,
    atLeast steps enoughLe state ((wellFormed.mem_states_iff state).mpr known) distance found]

end Tolls

/-- A dear way to the goal, and a cheap one into a circle. -/
def dearWay : Model Nat Nat Rat :=
  (((Model.empty.addTransition 0 0 1 1 (-5)).addTransition 0 1 2 1 (-1)).addTransition
    2 0 0 1 (-1)).addTransition 1 0 1 1 0

theorem wellFormed_dearWay : dearWay.WellFormed :=
  (((Model.wellFormed_empty.addTransition 0 0 1 1 (-5)).addTransition 0 1 2 1 (-1)).addTransition
    2 0 0 1 (-1)).addTransition 1 0 1 1 0

theorem tolled_dearWay : dearWay.Tolled {1} where
  deterministic := by
    have toListed := wellFormed_dearWay.forall_offers
      (show ∀ state ∈ dearWay.states.toList, ∀ offer ∈ (dearWay.actions state).toList,
        ∃ next ∈ dearWay.states.toList, offer.2.toList = [(next, 1)] by decide +kernel)
    intro state offer offered
    obtain ⟨next, -, listEq⟩ := toListed state offer offered
    exact ⟨next, listEq⟩
  costs := by
    intro state noTarget transition leaves
    have listed := wellFormed_dearWay.forall_outgoing
      (show ∀ state ∈ dearWay.states.toList, ∀ transition ∈ dearWay.outgoing state,
        ({1} : LabelSet Nat).contains state = true ∨ transition.weight < 0 by decide +kernel)
    exact (listed state transition leaves).resolve_left noTarget
  goesOn := by
    intro state known noTarget
    have listed : ∀ state ∈ dearWay.states.toList, (dearWay.actions state).toList ≠ [] := by
      decide +kernel
    exact listed state ((wellFormed_dearWay.mem_states_iff state).mpr known)
  stays := by
    intro state isTarget transition leaves
    have listed := wellFormed_dearWay.forall_outgoing
      (show ∀ state ∈ dearWay.states.toList, ∀ transition ∈ dearWay.outgoing state,
        ({1} : LabelSet Nat).contains state = true →
          transition.target = state ∧ transition.weight = 0 by decide +kernel)
    exact listed state transition leaves isTarget

/-- Four sweeps of `dearWay` still go round the circle, but the value after enough of them is what
the dear way costs. -/
theorem valueIteration_eq_neg_distance_dearWay :
    (dearWay.valueIteration 1 4).1[0]? = some (-4 : Rat) ∧
      ∃ distances, dearWay.distancesToTargets {1} = .ok distances ∧
        distances[0]? = some (some 5) ∧
        ∃ enough, ∀ steps, enough ≤ steps →
          (dearWay.valueIteration 1 steps).1[0]? = some (-5 : Rat) := by
  have distanceEq : (dearWay.distancesToTargets {1}).toOption.bind
      (fun distances => distances[0]?) = some (some 5) := by decide +kernel
  obtain ⟨distances, measured, enough, atLeast⟩ :=
    tolled_dearWay.valueIteration_eq_neg_distance wellFormed_dearWay
  rw [measured] at distanceEq
  exact ⟨by decide +kernel, distances, measured, distanceEq, enough,
    fun steps enoughLe => atLeast steps enoughLe 0 5 distanceEq⟩

end Model

end MarkovDecision
