import Mathlib.Order.Bounds.Basic
import MarkovDecision.Proofs.Tours

/-!
# Distances are least costs

The distance of a state to the targets is a property of the model alone: it is the least cost of a
walk that ends in a target and meets none before.  Every state of the model has a distance, and it
is infinite exactly if there is no such walk.  So rewards behind a target do not matter, and a cycle
of rewards matters only where it has a least cost to spoil: there are no distances exactly if some
cycle outside the targets gains something and a walk leads on from it to a target.
-/

namespace MarkovDecision

open Std (TransOrd LawfulEqOrd)

namespace Model

variable {S A : Type} [Ord S] {model : Model S A Rat} {targets : LabelSet S}

/-- A walk from a state that ends in a target, meets none before, and has the given cost. -/
inductive Approach (model : Model S A Rat) (targets : LabelSet S) : S → Rat → Prop
  | arrived {state : S} (isTarget : targets.contains state = true)
      (known : model.contains state = true) : Approach model targets state 0
  | step {state : S} {cost : Rat} {transition : Transition S A Rat}
      (noTarget : ¬targets.contains state = true) (leaves : transition ∈ model.outgoing state)
      (onward : Approach model targets transition.target cost) :
      Approach model targets state (-transition.weight + cost)

theorem Approach.exists_walk {state : S} {cost : Rat}
    (approach : model.Approach targets state cost) :
    ∃ target ∈ targets, model.contains target = true ∧ Walk model.successors state target := by
  induction approach with
  | @arrived state isTarget known => exact ⟨state, isTarget, known, .refl⟩
  | @step state cost transition _ leaves _ ih =>
      obtain ⟨target, isTarget, known, walk⟩ := ih
      exact ⟨target, isTarget, known,
        walk.head ((mem_successors_iff model state _).mpr ⟨transition, leaves, rfl⟩)⟩

variable [TransOrd S] [LawfulEqOrd S] [Ord A]

/-- Backwards an approach is a route of the reversed transitions that starts at a target. -/
theorem WellFormed.approach_iff_hasRoute (wellFormed : model.WellFormed) (state : S)
    (cost : Rat) : model.Approach targets state cost ↔ model.HasRoute targets state cost := by
  constructor
  · intro approach
    induction approach with
    | @arrived state isTarget known => exact ⟨state, [], isTarget, known, rfl, rfl⟩
    | @step state cost transition noTarget leaves _ ih =>
        obtain ⟨target, route, isTarget, known, isRoute, rfl⟩ := ih
        let last : Arc S Rat := ⟨transition.target, state, transitionLength transition.weight⟩
        have lastMem : last ∈ model.reversedArcs targets :=
          (wellFormed.mem_reversedArcs_iff targets _).mpr
            ⟨state, transition, leaves, noTarget, rfl⟩
        refine ⟨target, route ++ [last], isTarget, known, ?_, ?_⟩
        · rw [isRoute_append]
          exact ⟨transition.target, isRoute, lastMem, rfl, rfl⟩
        · simp [last, transitionLength, add_comm]
  · rintro ⟨target, route, isTarget, known, isRoute, rfl⟩
    induction route using List.reverseRecOn generalizing state with
    | nil =>
        rw [isRoute_nil] at isRoute
        rw [← isRoute]
        exact .arrived isTarget known
    | append_singleton route last ih =>
        rw [isRoute_append] at isRoute
        obtain ⟨middle, toMiddle, lastMem, tailEq, headEq⟩ := isRoute
        obtain ⟨source, transition, leaves, noTarget, rfl⟩ :=
          (wellFormed.mem_reversedArcs_iff targets last).mp lastMem
        rw [isRoute_nil] at headEq
        rw [← tailEq] at toMiddle
        have onward := Approach.step noTarget leaves (ih transition.target toMiddle)
        rw [← headEq]
        simpa [transitionLength, add_comm] using onward

section Measured

variable (wellFormed : model.WellFormed) {distances : Distances S Rat}
  (measured : model.distancesToTargets targets = .ok distances)
include wellFormed measured

/-- A state has a finite distance exactly if that is the least cost of its approaches. -/
theorem WellFormed.distance_eq_iff_isLeast (state : S) (distance : Rat) :
    recorded distances state = some distance ↔
      IsLeast {cost | model.Approach targets state cost} distance := by
  have attained {distance : Rat} (found : recorded distances state = some distance) :
      model.Approach targets state distance :=
    (wellFormed.approach_iff_hasRoute state distance).mpr (wellFormed.hasRoute_distance measured
      (wellFormed.contains_of_distance measured found) found)
  have undercut {cost : Rat} (approach : model.Approach targets state cost) :
      ∃ distance, recorded distances state = some distance ∧ distance ≤ cost :=
    wellFormed.exists_distance_le measured
      ((wellFormed.approach_iff_hasRoute state cost).mp approach)
  constructor
  · intro found
    refine ⟨attained found, fun cost approach => ?_⟩
    obtain ⟨other, otherFound, otherLe⟩ := undercut approach
    rw [found, Option.some.injEq] at otherFound
    exact otherFound ▸ otherLe
  · rintro ⟨approach, isLower⟩
    obtain ⟨other, otherFound, otherLe⟩ := undercut approach
    rw [otherFound, le_antisymm otherLe (isLower (attained otherFound))]

theorem WellFormed.distance_eq_none_iff (state : S) :
    recorded distances state = none ↔ ∀ cost, ¬model.Approach targets state cost := by
  constructor
  · intro missing cost approach
    obtain ⟨distance, found, -⟩ := wellFormed.exists_distance_le measured
      ((wellFormed.approach_iff_hasRoute state cost).mp approach)
    rw [missing] at found
    cases found
  · intro noApproach
    rw [Option.eq_none_iff_forall_ne_some]
    intro distance found
    exact noApproach distance
      ((wellFormed.distance_eq_iff_isLeast measured state distance).mp found).1

/-- The distance grows along a tour by no less than the tour gains. -/
theorem WellFormed.distance_add_gain_le {start stop : S} {gain : Rat}
    (tour : model.Tour targets start stop gain) {distance : Rat}
    (found : recorded distances stop = some distance) :
    ∃ own, recorded distances start = some own ∧ own + gain ≤ distance := by
  obtain ⟨route, isRoute, lengthEq⟩ := (wellFormed.tour_iff start stop gain).mp tour
  have settled :=
    (wellFormed.potential_distancesToTargets measured).shortens_eq_false wellFormed
  obtain ⟨own, ownFound, ownLe⟩ := isRoute.exists_le_of_settled settled found
  exact ⟨own, ownFound, by linarith⟩

end Measured

/-- Some cycle outside the targets gains something, and a walk leads on from it to a target. -/
def HasHarmfulCycle (model : Model S A Rat) (targets : LabelSet S) : Prop :=
  ∃ state gain, model.Tour targets state state gain ∧ 0 < gain ∧
    ∃ target ∈ targets, model.contains target = true ∧ Walk model.successors state target

/-- From where a pass fails, a route leads to a circuit of negative length: backwards it is a
harmful cycle. -/
theorem WellFormed.hasHarmfulCycle_of_error (wellFormed : model.WellFormed)
    {cycle : RewardCycle S} (failed : model.distancesToTargets targets = .error cycle) :
    model.HasHarmfulCycle targets := by
  rw [distancesToTargets_eq] at failed
  obtain ⟨earlier, target, later, best, listedEq, -, passFails⟩ :=
    exists_step_of_foldlM_eq_error failed
  have listed : target ∈ targets.toList.filter model.contains := by simp [listedEq]
  obtain ⟨isTarget, known⟩ := List.mem_filter.mp listed
  have gains : ¬NoGainFrom (model.reversedArcs targets) target := by
    intro noGain
    obtain ⟨distances, found⟩ := wellFormed.exists_distancesFrom known noGain
    rw [distancePass, found] at passFails
    cases passFails
  unfold NoGainFrom at gains
  push Not at gains
  obtain ⟨before, circuit, state, toState, around, isNegative⟩ := gains
  have approach := (wellFormed.approach_iff_hasRoute state (routeLength before)).mpr
    ⟨target, before, Std.TreeSet.mem_toList.mp isTarget, known, toState, rfl⟩
  exact ⟨state, -routeLength circuit, (wellFormed.tour_iff state state _).mpr
    ⟨circuit, around, (neg_neg _).symm⟩, neg_pos.mpr isNegative, approach.exists_walk⟩

/-- Distances leave no harmful cycle: going round it they would have to grow. -/
theorem WellFormed.not_hasHarmfulCycle (wellFormed : model.WellFormed)
    {distances : Distances S Rat} (measured : model.distancesToTargets targets = .ok distances) :
    ¬model.HasHarmfulCycle targets := by
  rintro ⟨state, gain, tour, isPositive, comes⟩
  obtain ⟨distance, found⟩ := (wellFormed.exists_distance_iff measured state).mpr comes
  obtain ⟨own, ownFound, ownLe⟩ := wellFormed.distance_add_gain_le measured tour found
  rw [found, Option.some.injEq] at ownFound
  linarith

/-- What the distances to the targets are: every state of the model has an entry and nothing else
has one, a finite entry is the least cost of the approaches of its state, and an infinite one
belongs to a state without an approach. -/
structure LeastCosts (model : Model S A Rat) (targets : LabelSet S) (distances : Distances S Rat) :
    Prop where
  contains_eq : ∀ state, distances.contains state = model.contains state
  isLeast_iff : ∀ state distance, distances[state]? = some (some distance) ↔
    IsLeast {cost | model.Approach targets state cost} distance
  infinite_iff : ∀ state, distances[state]? = some none ↔
    model.contains state = true ∧ ∀ cost, ¬model.Approach targets state cost
  target_zero : ∀ target, targets.contains target = true → model.contains target = true →
    distances[target]? = some (some 0)

/-- There are no distances exactly if there is a harmful cycle, and otherwise they are the least
costs. -/
theorem WellFormed.distancesToTargets_leastCosts (wellFormed : model.WellFormed)
    (targets : LabelSet S) :
    ((∃ cycle, model.distancesToTargets targets = .error cycle) ↔
        model.HasHarmfulCycle targets) ∧
      ∀ distances, model.distancesToTargets targets = .ok distances →
        model.LeastCosts targets distances := by
  refine ⟨⟨?_, ?_⟩, fun distances measured => ⟨?_, ?_, ?_, ?_⟩⟩
  · rintro ⟨cycle, failed⟩
    exact wellFormed.hasHarmfulCycle_of_error failed
  · intro isHarmful
    cases measured : model.distancesToTargets targets with
    | error cycle => exact ⟨cycle, rfl⟩
    | ok distances => exact (wellFormed.not_hasHarmfulCycle measured isHarmful).elim
  · exact wellFormed.contains_distancesToTargets measured
  · intro state distance
    rw [← recorded_eq_some_iff]
    exact wellFormed.distance_eq_iff_isLeast measured state distance
  · intro state
    rw [getElem?_eq_some_none_iff, wellFormed.contains_distancesToTargets measured,
      wellFormed.distance_eq_none_iff measured]
  · intro target isTarget known
    rw [← recorded_eq_some_iff]
    exact wellFormed.recorded_target measured isTarget known

/-- A target that hands out a reward on the way back to the start, and a state that collects
rewards for ever without coming to the target. -/
def rewardsAside : Model Nat Nat Rat :=
  ((Model.empty.addTransition 0 0 1 1 (-1)).addTransition 1 0 0 1 5).addTransition 2 0 2 1 3

theorem wellFormed_rewardsAside : rewardsAside.WellFormed :=
  ((Model.wellFormed_empty.addTransition 0 0 1 1 (-1)).addTransition 1 0 0 1 5).addTransition
    2 0 2 1 3

/-- Neither cycle of `rewardsAside` is harmful: the start is one away from the target, and the
collecting state is infinitely far away. -/
theorem distancesToTargets_leastCosts_rewardsAside :
    rewardsAside.WellFormed ∧ ¬rewardsAside.HasHarmfulCycle {1} ∧
      ∃ distances, rewardsAside.distancesToTargets {1} = .ok distances ∧
        distances[0]? = some (some 1) ∧ distances[1]? = some (some 0) ∧
        distances[2]? = some none ∧
        rewardsAside.LeastCosts {1} distances := by
  have entries : (rewardsAside.distancesToTargets {1}).toOption.map
      (fun distances => (distances[0]?, distances[1]?, distances[2]?)) =
        some (some (some 1), some (some 0), some none) := by decide +kernel
  obtain ⟨errorIff, leastCosts⟩ :=
    wellFormed_rewardsAside.distancesToTargets_leastCosts {1}
  cases measured : rewardsAside.distancesToTargets {1} with
  | error cycle =>
      rw [measured] at entries
      cases entries
  | ok distances =>
      rw [measured] at entries
      simp only [Except.toOption, Option.map_some, Option.some.injEq, Prod.mk.injEq] at entries
      refine ⟨wellFormed_rewardsAside, fun isHarmful => ?_, distances, rfl, entries.1,
        entries.2.1, entries.2.2, leastCosts distances measured⟩
      obtain ⟨cycle, failed⟩ := errorIff.mpr isHarmful
      rw [measured] at failed
      cases failed

end Model

end MarkovDecision
