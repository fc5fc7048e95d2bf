import Mathlib.Algebra.Order.BigOperators.Group.List
import MarkovDecision.Proofs.Guarantee.Answer
import MarkovDecision.Proofs.Reachability.Greedy
import MarkovDecision.Proofs.Reachability.Reach

/-!
# Best actions attain the optimum

An optimal assignment leaves no variable above everything that the actions of its state promise:
it could be lowered to the greatest promise, which meets all constraints and makes the sum smaller.
So the best action of a state promises what the state is worth, as long as no action promises more.
An action does so if and only if it is overfull: it stays for certain and leads to a target on top
of that.  Such an action may have no term left that its constraint could be posted with.
-/

namespace MarkovDecision

open Std (TreeMap TransOrd LawfulEqOrd)

namespace Model

variable {S A : Type} [Ord S] [Ord A]

/-- A distribution that stays for certain and leads to a target on top of that. -/
def Overfull (targets : LabelSet S) (state : S) (distribution : Distribution S Rat) : Prop :=
  distribution.getD state 0 = 1 ∧
    ∃ target, targets.contains target = true ∧ 0 < distribution.getD target 0

/-- What a policy takes in a state attains what the state is worth by a table of values, no other
action exceeds that, and of those that attain it the policy takes the first one. -/
def AttainsOptimum (model : Model S A Rat) (policy : Policy S A) (values : ValueTable S Rat)
    (state : S) : Prop :=
  ∃ worth, values[state]? = some worth ∧ ∃ chosen ∈ (model.actions state).toList,
    policy[state]? = some chosen.1 ∧ actionValue chosen.2 values = worth ∧
      ∀ other ∈ (model.actions state).toList, actionValue other.2 values ≤ worth ∧
        (actionValue other.2 values = worth → (compare chosen.1 other.1).isLE = true)

variable {model : Model S A Rat} {targets : LabelSet S}

variable [TransOrd S] [LawfulEqOrd S]

/-- Probabilities that sum to at most one leave no room for anything next to staying. -/
theorem Substochastic.not_overfull (proper : model.Substochastic) {state : S}
    (noTarget : ¬targets.contains state = true) {offer : A × Distribution S Rat}
    (offered : offer ∈ (model.actions state).toList) : ¬Overfull targets state offer.2 := by
  rintro ⟨stays, target, isTarget, positive⟩
  have different : state ≠ target := by
    rintro rfl
    exact noTarget isTarget
  have pairTotal := getD_add_getD_le (proper.nonneg state offer offered) different
  have total := proper.total_le_one state offer offered
  linarith

section Constraints

variable {state : S} {index : Nat} (listed : (model.unsettled targets)[index]? = some state)
  {offer : A × Distribution S Rat} (offered : offer ∈ (model.actions state).toList)
include listed offered

/-- A constraint that is posted for an action asks the state to be worth what the action
promises. -/
theorem Discernible.holds_iff_promised (discernible : model.Discernible)
    {constraint : Constraint Rat}
    (produced : actionConstraint? (settledValues (model.classify targets))
      (positions (model.unsettled targets)) index offer.2 = some constraint)
    (values : Nat → Rat) :
    constraint.Holds values ↔ expected offer.2 (model.extend targets values) ≤ values index := by
  have difference := combination_sub_bound
    (gathered_resolved ((getElem?_positions_iff nodup_unsettled state index).mpr listed)
      unsettled_positions_injective (discernible.visible state offer offered)
      (discernible.staying state offer offered)) produced values
  rw [Constraint.Holds, extend, ← sub_nonneg, difference, sub_nonneg]

/-- An action for which no constraint is posted stays for certain, and promises what it does
without the unsettled states on top of what the state is worth. -/
theorem Discernible.promise_of_no_constraint (discernible : model.Discernible)
    (noConstraint : actionConstraint? (settledValues (model.classify targets))
      (positions (model.unsettled targets)) index offer.2 = none)
    (values : Nat → Rat) :
    offer.2.getD state 0 = 1 ∧ expected offer.2 (model.extend targets values) =
      values index + expected offer.2 (model.extend targets fun _ => 0) := by
  have ownIndex := (getElem?_positions_iff nodup_unsettled state index).mpr listed
  have staying := discernible.staying state offer offered
  have promised := expected_of_no_constraint
    (gathered_resolved ownIndex unsettled_positions_injective
      (discernible.visible state offer offered) staying) noConstraint values
  rw [gathered_bound] at promised
  exact ⟨stays_of_no_constraint ownIndex unsettled_positions_injective staying noConstraint,
    promised⟩

end Constraints

section Lowering

variable {values : Nat → Rat}

omit [Ord A] [TransOrd S] [LawfulEqOrd S] in
theorem extend_mono {lower : Nat → Rat} (below : lower ≤ values) (state : S) :
    model.extend targets lower state ≤ model.extend targets values state := by
  unfold extend completed
  split
  · exact below _
  · exact le_refl _

variable {value : Rat} {state : S} {index : Nat}
  (listed : (model.unsettled targets)[index]? = some state)
include listed

/-- A feasible assignment stays feasible when one variable is lowered to no less than the actions
of its state promise, since all other promises get smaller as well. -/
theorem Discernible.feasible_update (discernible : model.Discernible)
    (feasible : (model.reachProgram (model.classify targets)).Feasible values)
    (nonneg : 0 ≤ value) (atMost : value ≤ values index)
    (promised : ∀ offer ∈ (model.actions state).toList,
      expected offer.2 (model.extend targets values) ≤ value) :
    (model.reachProgram (model.classify targets)).Feasible
      (Function.update values index value) := by
  constructor
  · intro other otherLt
    rcases eq_or_ne other index with rfl | different
    · rw [Function.update_self]
      exact ⟨nonneg, atMost.trans (feasible.1 _ otherLt).2⟩
    · rw [Function.update_of_ne different]
      exact feasible.1 other otherLt
  · intro constraint member
    obtain ⟨label, other, otherListed, offer, offered, produced⟩ :=
      (mem_constraints_iff constraint).mp member
    rw [discernible.holds_iff_promised otherListed offered produced]
    have smaller : expected offer.2 (model.extend targets (Function.update values index value)) ≤
        expected offer.2 (model.extend targets values) :=
      expected_le_expected (discernible.nonneg label offer offered) fun entry _ =>
        extend_mono (update_le_self_iff.mpr atMost) entry.1
    apply smaller.trans
    rcases eq_or_ne other index with rfl | different
    · rw [listed] at otherListed
      cases otherListed
      rw [Function.update_self]
      exact promised offer offered
    · rw [Function.update_of_ne different,
        ← discernible.holds_iff_promised otherListed offered produced]
      exact feasible.2 constraint member

theorem objective_update_lt (less : value < values index) :
    (model.reachProgram (model.classify targets)).objective (Function.update values index value) <
      (model.reachProgram (model.classify targets)).objective values := by
  rw [objective_reachProgram, objective_reachProgram]
  refine List.sum_lt_sum _ _ (fun other _ => extend_mono (update_le_self_iff.mpr less.le) other)
    ⟨state, List.mem_of_getElem? listed, ?_⟩
  rwa [extend_of_listed _ listed, extend_of_listed _ listed, Function.update_self]

end Lowering

variable [TransOrd A]

theorem WellFormed.exists_offer_of_unknown (wellFormed : model.WellFormed) {state : S}
    (standing : model.classification targets state = .unknown) :
    ∃ offer, offer ∈ (model.actions state).toList := by
  obtain ⟨noTarget, coming⟩ := (classification_eq_unknown_iff state).mp standing
  obtain ⟨target, isTarget, -, walk⟩ := (wellFormed.mem_comingTo_iff targets state).mp coming
  rcases Relation.ReflTransGen.cases_head walk with rfl | ⟨next, isNext, -⟩
  · exact (noTarget isTarget).elim
  · obtain ⟨transition, leaves, -⟩ := (mem_successors_iff model state next).mp isNext
    have isAction := (contains_actions model state transition.action).mpr
      ⟨transition, leaves, Std.ReflCmp.compare_self⟩
    obtain ⟨offer, offered, -⟩ := ActionTable.exists_offer isAction
    exact ⟨offer, offered⟩

section Promises

variable (wellFormed : model.WellFormed) (discernible : model.Discernible) {state : S}
  {offer : A × Distribution S Rat} (offered : offer ∈ (model.actions state).toList)
include wellFormed discernible offered

theorem WellFormed.promise_of_zero
    (noWay : ∀ target, targets.contains target = true → ¬0 < offer.2.getD target 0) :
    expected offer.2 (model.extend targets fun _ => 0) = 0 := by
  apply List.sum_eq_zero
  intro part partMem
  obtain ⟨entry, member, rfl⟩ := List.mem_map.mp partMem
  have known := wellFormed.contains_entry offered member
  cases standing : model.classification targets entry.1 with
  | target =>
      have isTarget := (classification_eq_target_iff model entry.1).mp standing
      have notPositive := noWay entry.1 isTarget
      rw [TreeMap.getD_eq_getD_getElem?, TreeMap.mem_toList_iff_getElem?_eq_some.mp member,
        Option.getD_some] at notPositive
      rw [le_antisymm (le_of_not_gt notPositive)
        (discernible.nonneg state offer offered entry member), zero_mul]
  | unreachable => rw [wellFormed.extend_of_unreachable _ known standing, mul_zero]
  | unknown =>
      obtain ⟨index, listed⟩ := wellFormed.exists_listed known standing
      rw [extend_of_listed _ listed, mul_zero]

variable {values : Nat → Rat} (box : ∀ index, index < (model.unsettled targets).length →
  0 ≤ values index ∧ values index ≤ 1)
include box

theorem WellFormed.promise_nonneg : 0 ≤ expected offer.2 (model.extend targets values) :=
  expected_nonneg (discernible.nonneg state offer offered) fun _ member =>
    (wellFormed.extend_probability values box (wellFormed.contains_entry offered member)).1

/-- An overfull action promises more than the state is worth, whatever that is. -/
theorem WellFormed.lt_promise_of_overfull (noTarget : ¬targets.contains state = true)
    (overfull : Overfull targets state offer.2) :
    model.extend targets values state < expected offer.2 (model.extend targets values) := by
  obtain ⟨stays, target, isTarget, positive⟩ := overfull
  have different : state ≠ target := by
    rintro rfl
    exact noTarget isTarget
  have known : model.contains target = true := by
    cases found : offer.2[target]? with
    | none =>
        rw [TreeMap.getD_eq_getD_getElem?, found] at positive
        exact (lt_irrefl _ positive).elim
    | some probability =>
        exact wellFormed.contains_entry offered (TreeMap.mem_toList_iff_getElem?_eq_some.mpr found)
  have shares := shares_le_expected (discernible.nonneg state offer offered)
    (model.extend targets values) (fun entry member =>
      (wellFormed.extend_probability values box (wellFormed.contains_entry offered member)).1)
    different
  rw [stays, one_mul, wellFormed.extend_of_target values known
    ((classification_eq_target_iff model target).mpr isTarget), mul_one] at shares
  linarith

omit discernible box in
theorem WellFormed.promise_of_unreachable
    (standing : model.classification targets state = .unreachable) :
    expected offer.2 (model.extend targets values) = 0 := by
  have allZero : expected offer.2 (model.extend targets values) = expected offer.2 fun _ => 0 := by
    refine expected_congr fun entry member => ?_
    exact wellFormed.extend_of_unreachable values (wellFormed.contains_entry offered member)
      (wellFormed.unreachable_successor standing (wellFormed.entry_mem_successors offered member))
  rw [allZero, expected_const, mul_zero]

end Promises

section Optimum

variable (wellFormed : model.WellFormed) (discernible : model.Discernible) {values : Nat → Rat}
  {state : S}
include wellFormed discernible

/-- By a feasible assignment no action promises more than its state is worth, unless it is
overfull. -/
theorem WellFormed.promise_le_iff
    (feasible : (model.reachProgram (model.classify targets)).Feasible values)
    (noTarget : ¬targets.contains state = true) {offer : A × Distribution S Rat}
    (offered : offer ∈ (model.actions state).toList) :
    expected offer.2 (model.extend targets values) ≤ model.extend targets values state ↔
      ¬Overfull targets state offer.2 := by
  have known := contains_of_offer offered
  constructor
  · intro promised overfull
    exact (wellFormed.lt_promise_of_overfull discernible offered feasible.1 noTarget
      overfull).not_ge promised
  · intro notOverfull
    cases standing : model.classification targets state with
    | target => exact (noTarget ((classification_eq_target_iff model state).mp standing)).elim
    | unreachable =>
        rw [wellFormed.promise_of_unreachable offered standing]
        exact (wellFormed.extend_probability values feasible.1 known).1
    | unknown =>
        obtain ⟨index, listed⟩ := wellFormed.exists_listed known standing
        rw [extend_of_listed values listed]
        cases produced : actionConstraint? (settledValues (model.classify targets))
            (positions (model.unsettled targets)) index offer.2 with
        | some constraint =>
            rw [← discernible.holds_iff_promised listed offered produced]
            exact feasible.2 constraint ((mem_constraints_iff constraint).mpr
              ⟨state, index, listed, offer, offered, produced⟩)
        | none =>
            obtain ⟨stays, promised⟩ :=
              discernible.promise_of_no_constraint listed offered produced values
            rw [promised, wellFormed.promise_of_zero discernible offered
              fun target isTarget positive => notOverfull ⟨stays, target, isTarget, positive⟩,
              add_zero]

/-- By an optimal assignment an unsettled state is worth no more than the best of its actions
promises, since its variable could be lowered otherwise. -/
theorem WellFormed.exists_attaining_of_listed
    (optimal : (model.reachProgram (model.classify targets)).Optimal values) {index : Nat}
    (listed : (model.unsettled targets)[index]? = some state) :
    ∃ offer ∈ (model.actions state).toList,
      values index ≤ expected offer.2 (model.extend targets values) := by
  let promises : List Rat := (model.actions state).toList.map fun offer =>
    expected offer.2 (model.extend targets values)
  obtain ⟨anyOffer, anyOffered⟩ := wellFormed.exists_offer_of_unknown
    ((wellFormed.mem_unsettled_iff state).mp (List.mem_of_getElem? listed)).2
  have nonempty : promises ≠ [] := List.ne_nil_of_mem (List.mem_map_of_mem anyOffered)
  obtain ⟨offer, offered, isGreatest⟩ := List.mem_map.mp (greatest_mem nonempty)
  refine ⟨offer, offered, ?_⟩
  rw [isGreatest]
  by_contra notAttained
  have less := not_le.mp notAttained
  have nonneg : 0 ≤ greatest promises := by
    rw [← isGreatest]
    exact wellFormed.promise_nonneg discernible offered optimal.1.1
  have feasible := discernible.feasible_update listed optimal.1 nonneg less.le
    fun other otherOffered => le_greatest (List.mem_map_of_mem otherOffered)
  exact (optimal.2 _ feasible).not_gt (objective_update_lt listed less)

theorem WellFormed.exists_attaining
    (optimal : (model.reachProgram (model.classify targets)).Optimal values)
    (noTarget : ¬targets.contains state = true) {offer : A × Distribution S Rat}
    (offered : offer ∈ (model.actions state).toList) :
    ∃ other ∈ (model.actions state).toList,
      model.extend targets values state ≤ expected other.2 (model.extend targets values) := by
  have known := contains_of_offer offered
  cases standing : model.classification targets state with
  | target => exact (noTarget ((classification_eq_target_iff model state).mp standing)).elim
  | unreachable =>
      refine ⟨offer, offered, ?_⟩
      rw [wellFormed.extend_of_unreachable values known standing]
      exact wellFormed.promise_nonneg discernible offered optimal.1.1
  | unknown =>
      obtain ⟨index, listed⟩ := wellFormed.exists_listed known standing
      rw [extend_of_listed values listed]
      exact wellFormed.exists_attaining_of_listed discernible optimal listed

/-- A policy that takes the best action by the values of an optimal assignment attains what a
state is worth if and only if none of its actions is overfull. -/
theorem WellFormed.attainsOptimum_iff
    (optimal : (model.reachProgram (model.classify targets)).Optimal values)
    {policy : Policy S A} {table : ValueTable S Rat}
    (tableEq : ∀ label, model.contains label = true →
      table[label]? = some (model.extend targets values label))
    (isBest : policy[state]? = model.bestAction? targets table state)
    (noTarget : ¬targets.contains state = true)
    (hasActions : (model.actions state).toList ≠ []) :
    model.AttainsOptimum policy table state ↔
      ∀ offer ∈ (model.actions state).toList, ¬Overfull targets state offer.2 := by
  have valueEq {offer : A × Distribution S Rat} (offered : offer ∈ (model.actions state).toList) :
      actionValue offer.2 table = expected offer.2 (model.extend targets values) := by
    rw [actionValue_eq_expected]
    refine expected_congr fun entry member => ?_
    rw [TreeMap.getD_eq_getD_getElem?, tableEq _ (wellFormed.contains_entry offered member),
      Option.getD_some]
  obtain ⟨first, firstOffered⟩ := List.exists_mem_of_ne_nil _ hasActions
  have worthEq := tableEq state (contains_of_offer firstOffered)
  constructor
  · rintro ⟨worth, found, _, -, -, -, above⟩ offer offered
    rw [worthEq] at found
    cases found
    have atMost := (above offer offered).1
    rw [valueEq offered] at atMost
    exact (wellFormed.promise_le_iff discernible optimal.1 noTarget offered).mp atMost
  · intro notOverfull
    obtain ⟨chosen, offered, bestEq, above⟩ := exists_first_bestAction? table noTarget hasActions
    obtain ⟨other, otherOffered, attains⟩ :=
      wellFormed.exists_attaining discernible optimal noTarget offered
    have chosenEq : actionValue chosen.2 table = model.extend targets values state := by
      apply le_antisymm
      · rw [valueEq offered]
        exact (wellFormed.promise_le_iff discernible optimal.1 noTarget offered).mpr
          (notOverfull chosen offered)
      · rw [← valueEq otherOffered] at attains
        exact attains.trans (above other otherOffered).1
    rw [chosenEq] at above
    exact ⟨_, worthEq, chosen, offered, isBest.trans bestEq, chosenEq, above⟩

omit [LawfulEqOrd S] discernible in
theorem WellFormed.greedyPolicy_takes_best (targets : LabelSet S) (table : ValueTable S Rat)
    (state : S) :
    (model.greedyPolicy targets table)[state]? = model.bestAction? targets table state := by
  rw [wellFormed.getElem?_greedyPolicy]
  split
  · rfl
  · rename_i unknown
    cases best : model.bestAction? targets table state with
    | none => rfl
    | some action =>
        have hasActions : (model.actions state).toList ≠ [] := by
          rw [← isSome_bestAction?_iff table state, best]
          rfl
        obtain ⟨offer, offered⟩ := List.exists_mem_of_ne_nil _ hasActions
        exact (unknown (contains_of_offer offered)).elim

omit discernible in
/-- A policy that is answered takes the best actions by the values of an optimal assignment. -/
theorem WellFormed.exists_optimal_of_reachPolicy_eq_ok {solver : Solver Rat}
    (returns : solver.ReturnsOptimum (model.reachProgram (model.classify targets)))
    {policy : Policy S A} {table : ValueTable S Rat}
    (answered : model.reachPolicy solver targets = .ok (policy, table)) :
    (∃ values, (model.reachProgram (model.classify targets)).Optimal values ∧
      ∀ state, model.contains state = true →
        table[state]? = some (model.extend targets values state)) ∧
      ∀ state, policy[state]? = model.bestAction? targets table state := by
  unfold reachPolicy at answered
  cases reached : model.reach solver targets with
  | error error =>
      rw [reached] at answered
      cases answered
  | ok reach =>
      rw [reached] at answered
      cases answered
      exact ⟨wellFormed.exists_optimal_of_reach_eq_ok returns reached,
        wellFormed.greedyPolicy_takes_best targets reach.values⟩

omit discernible in
/-- In a resolved model the policy for the targets attains what every state is worth, since none
of its actions is overfull. -/
theorem WellFormed.reachPolicy_attains (resolved : model.Resolved) {solver : Solver Rat}
    (returns : solver.ReturnsOptimum (model.reachProgram (model.classify targets)))
    {policy : Policy S A} {table : ValueTable S Rat}
    (answered : model.reachPolicy solver targets = .ok (policy, table))
    (noTarget : ¬targets.contains state = true)
    (hasActions : (model.actions state).toList ≠ []) :
    model.AttainsOptimum policy table state := by
  obtain ⟨⟨values, optimal, tableEq⟩, isBest⟩ :=
    wellFormed.exists_optimal_of_reachPolicy_eq_ok returns answered
  rw [wellFormed.attainsOptimum_iff resolved.discernible optimal tableEq (isBest state) noTarget
    hasActions]
  intro offer offered
  exact resolved.toSubstochastic.not_overfull noTarget offered

/-- The policy for the targets decides in the states with actions, by the first action in a
target.  In any other state it attains what the state is worth if and only if no action of the
state is overfull. -/
theorem WellFormed.reachPolicy_attains_iff {solver : Solver Rat}
    (returns : solver.ReturnsOptimum (model.reachProgram (model.classify targets)))
    {policy : Policy S A} {table : ValueTable S Rat}
    (answered : model.reachPolicy solver targets = .ok (policy, table)) :
    (∀ state, policy.contains state = true ↔ (model.actions state).toList ≠ []) ∧
      (∀ state, targets.contains state = true →
        policy[state]? = (model.actions state).minKey?) ∧
      ∀ state, ¬targets.contains state = true → (model.actions state).toList ≠ [] →
        (model.AttainsOptimum policy table state ↔
          ∀ offer ∈ (model.actions state).toList, ¬Overfull targets state offer.2) := by
  obtain ⟨⟨values, optimal, tableEq⟩, isBest⟩ :=
    wellFormed.exists_optimal_of_reachPolicy_eq_ok returns answered
  refine ⟨fun state => ?_, fun state isTarget => ?_, fun state noTarget hasActions => ?_⟩
  · rw [TreeMap.contains_eq_isSome_getElem?, isBest, isSome_bestAction?_iff]
  · rw [isBest, bestAction?, if_pos isTarget]
  · exact wellFormed.attainsOptimum_iff discernible optimal tableEq (isBest state) noTarget
      hasActions

end Optimum

/-- A state that stays for certain, and comes to another one with a small probability on top of
that, within the tolerance of tables. -/
def stayAndMore : Model Nat Nat Rat :=
  (empty.addTransition 0 0 0 1 0).addTransition 0 0 1 (1 / 2000000) 0

/-- The program of `stayAndMore` has a variable, but nothing is asked of it. -/
theorem returnsOptimum_stayAndMore :
    LinearProgram.solve.ReturnsOptimum (stayAndMore.reachProgram (stayAndMore.classify {1})) := by
  have unknownsEq : (stayAndMore.reachProgram (stayAndMore.classify {1})).unknowns = 1 := by
    decide +kernel
  have noConstraint :
      (stayAndMore.reachProgram (stayAndMore.classify {1})).constraints.length = 0 := by
    decide +kernel
  have solved : LinearProgram.solve (stayAndMore.reachProgram (stayAndMore.classify {1})) =
      some #[0] := by
    decide +kernel
  generalize stayAndMore.reachProgram (stayAndMore.classify {1}) = program at *
  intro solution isSolution
  rw [solved] at isSolution
  cases isSolution
  refine ⟨⟨?_, ?_⟩, ?_⟩
  · intro index indexLt
    have isFirst : index = 0 := by omega
    subst isFirst
    norm_num [LinearProgram.assignment]
  · intro constraint member
    rw [List.length_eq_zero_iff.mp noConstraint] at member
    cases member
  · intro others feasible
    rw [LinearProgram.objective_of_single unknownsEq, LinearProgram.objective_of_single unknownsEq]
    exact (feasible.1 0 (by omega)).1

/-- The theorem at work on an overfull action: the state is worth nothing by the answer, and its
only action promises something. -/
theorem reachPolicy_attains_iff_stayAndMore :
    stayAndMore.WellFormed ∧ stayAndMore.Discernible ∧
      LinearProgram.solve.ReturnsOptimum (stayAndMore.reachProgram (stayAndMore.classify {1})) ∧
      ∃ policy table, stayAndMore.reachPolicy LinearProgram.solve {1} = .ok (policy, table) ∧
        policy.contains 0 = true ∧ table[0]? = some 0 ∧
        ¬stayAndMore.AttainsOptimum policy table 0 := by
  have wellFormed : stayAndMore.WellFormed :=
    (wellFormed_empty.addTransition 0 0 0 1 0).addTransition 0 0 1 (1 / 2000000) 0
  have discernible : stayAndMore.Discernible :=
    wellFormed.discernible_of_states (by decide +kernel)
  obtain ⟨⟨policy, table⟩, answered⟩ := exists_eq_ok
    (show (stayAndMore.reachPolicy LinearProgram.solve {1}).isOk = true by decide +kernel)
  have worthless : ∀ answer ∈ (stayAndMore.reachPolicy LinearProgram.solve {1}).toOption,
      answer.2[0]? = some 0 := by
    decide +kernel
  have hasActions : (stayAndMore.actions 0).toList ≠ [] := by
    decide +kernel
  obtain ⟨decides, -, attainsIff⟩ :=
    wellFormed.reachPolicy_attains_iff discernible returnsOptimum_stayAndMore answered
  refine ⟨wellFormed, discernible, returnsOptimum_stayAndMore, policy, table, answered,
    (decides 0).mpr hasActions, worthless _ (mem_toOption_of_eq_ok answered), ?_⟩
  rw [attainsIff 0 (by decide +kernel) hasActions]
  have isOverfull : ∃ offer ∈ (stayAndMore.actions 0).toList, offer.2.getD 0 0 = 1 ∧
      0 < offer.2.getD 1 0 := by
    decide +kernel
  obtain ⟨offer, offered, stays, positive⟩ := isOverfull
  intro notOverfull
  exact notOverfull offer offered ⟨stays, 1, by decide +kernel, positive⟩

end Model

end MarkovDecision
