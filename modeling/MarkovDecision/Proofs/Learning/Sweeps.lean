import MarkovDecision.Learning.ValueIteration
import MarkovDecision.Proofs.Expectation
import MarkovDecision.Proofs.Folds
import MarkovDecision.Proofs.Model.Actions
import MarkovDecision.Proofs.Model.Connectivity

/-!
# Sweeps

One sweep of value iteration looks one step ahead in every state and in each of them at the values
of the sweep before.  So the values after some sweeps are those of the recursion over the number of
steps, and the policy of the last sweep takes in every state the first action that promises the
most.
-/

namespace MarkovDecision

open Std (TreeMap TransOrd LawfulEqOrd ReflCmp)

namespace Model

variable {S A : Type} [Ord S] [Ord A]

/-- No probability of an action is negative. -/
def Nonnegative (model : Model S A Rat) : Prop :=
  ∀ state, ∀ offer ∈ (model.actions state).toList, ∀ entry ∈ offer.2.toList, 0 ≤ entry.2

/-- What an action of a state promises: the expected reward of the step and discounted value after
it. -/
def promise (model : Model S A Rat) (discount : Rat) (values : S → Rat) (state : S)
    (offer : A × Distribution S Rat) : Rat :=
  expected offer.2 fun next =>
    (model.weight? state offer.1 (some next)).getD 0 + discount * values next

/-- The greatest expected discounted reward of a number of steps, by backward induction. -/
def bestReturn (model : Model S A Rat) (discount : Rat) : Nat → S → Rat
  | 0, _ => 0
  | steps + 1, state => greatest ((model.actions state).toList.map
      (model.promise discount (model.bestReturn discount steps) state))

variable {model : Model S A Rat} {discount : Rat}

theorem lookahead_eq_promise (values : ValueTable S Rat) (state : S)
    (offer : A × Distribution S Rat) :
    model.lookahead discount values state offer.1 offer.2 =
      model.promise discount (fun next => values.getD next 0) state offer := by
  have summed := foldl_add_eq_add_sum (offer.2.toList.map fun entry => entry.2 *
    ((model.weight? state offer.1 (some entry.1)).getD 0 + discount * values.getD entry.1 0)) 0
  rw [List.foldl_map, zero_add] at summed
  exact summed

theorem promise_le_promise (nonneg : model.Nonnegative) (isDiscount : 0 ≤ discount) {state : S}
    {offer : A × Distribution S Rat} (offered : offer ∈ (model.actions state).toList)
    {first second : S → Rat} (below : ∀ entry ∈ offer.2.toList, first entry.1 ≤ second entry.1) :
    model.promise discount first state offer ≤ model.promise discount second state offer := by
  apply expected_le_expected (nonneg state offer offered)
  intro entry member
  gcongr
  exact below entry member

theorem promise_congr [TransOrd S] [TransOrd A] (values : S → Rat) (state : S) {first second : A}
    (same : compare first second = .eq) (distribution : Distribution S Rat) :
    model.promise discount values state (first, distribution) =
      model.promise discount values state (second, distribution) := by
  have sameWeight (next : S) :
      model.weight? state first (some next) = model.weight? state second (some next) := by
    rw [weight?_some, weight?_some,
      model.transition?_congr ReflCmp.compare_self same ReflCmp.compare_self]
  simp only [promise, sameWeight]

theorem bestReturn_of_no_actions {state : S} (noActions : (model.actions state).toList = [])
    (steps : Nat) : model.bestReturn discount steps state = 0 := by
  cases steps with
  | zero => rfl
  | succ steps =>
      rw [bestReturn, noActions]
      rfl

theorem bestReturn_succ_le_succ (nonneg : model.Nonnegative) (isDiscount : 0 ≤ discount)
    {first second : Nat}
    (below : ∀ state,
      model.bestReturn discount first state ≤ model.bestReturn discount second state)
    (state : S) :
    model.bestReturn discount (first + 1) state ≤ model.bestReturn discount (second + 1) state :=
  greatest_map_le fun _ offered => promise_le_promise nonneg isDiscount offered fun entry _ =>
    below entry.1

theorem promise_le_bestReturn {state : S} {offer : A × Distribution S Rat}
    (offered : offer ∈ (model.actions state).toList) (steps : Nat) :
    model.promise discount (model.bestReturn discount steps) state offer ≤
      model.bestReturn discount (steps + 1) state :=
  le_greatest (List.mem_map_of_mem offered)

section Improving

variable (discount)

theorem improved_of_no_actions (values : ValueTable S Rat) {state : S}
    (noActions : (model.actions state).toList = []) :
    model.improved discount values state = (values.getD state 0, none) := by
  have isEmpty : (model.actions state).isEmpty = true := by
    rw [← TreeMap.isEmpty_toList, noActions]
    rfl
  rw [improved, if_pos isEmpty]

/-- A state with actions is worth the greatest of what they promise, and the first action that
promises as much is chosen. -/
theorem exists_improved_eq [TransOrd A] (values : ValueTable S Rat) {state : S}
    (hasActions : (model.actions state).toList ≠ []) :
    ∃ offer ∈ (model.actions state).toList,
      model.improved discount values state =
        (model.promise discount (fun next => values.getD next 0) state offer, some offer.1) ∧
      ∀ other ∈ (model.actions state).toList,
        model.promise discount (fun next => values.getD next 0) state other ≤
            model.promise discount (fun next => values.getD next 0) state offer ∧
          (model.promise discount (fun next => values.getD next 0) state other =
              model.promise discount (fun next => values.getD next 0) state offer →
            (compare offer.1 other.1).isLE = true) := by
  have notEmpty : ¬(model.actions state).isEmpty = true := by
    rw [← TreeMap.isEmpty_toList, List.isEmpty_iff]
    exact hasActions
  obtain ⟨offer, offered, found, above⟩ := exists_firstBest?_toList hasActions
    (model.promise discount (fun next => values.getD next 0) state)
  refine ⟨offer, offered, ?_, above⟩
  simp only [improved, if_neg notEmpty, lookahead_eq_promise, found]

end Improving

section Sweeping

variable (model discount)

/-- A sweep records the new value of every state and the action of those that have one. -/
theorem sweep_eq (values : ValueTable S Rat) :
    model.sweep discount values =
      (model.states.toList.foldl
          (record fun state => some (model.improved discount values state).1) ∅,
        model.states.toList.foldl (record fun state => (model.improved discount values state).2)
          ∅) := by
  unfold sweep
  apply foldl_pair
  intro next policy state
  rcases chosen : model.improved discount values state with ⟨value, _ | action⟩ <;>
    simp [record, chosen]

theorem sweeps_succ (count : Nat) (result : ValueTable S Rat × Policy S A) :
    model.sweeps discount (count + 1) result =
      model.sweep discount (model.sweeps discount count result).1 := by
  induction count generalizing result with
  | zero => rfl
  | succ count ih => exact ih (model.sweep discount result.1)

theorem valueIteration_succ (count : Nat) :
    model.valueIteration discount (count + 1) =
      model.sweep discount (model.valueIteration discount count).1 :=
  model.sweeps_succ discount count _

end Sweeping

/-- Where the values are those of the recursion, one sweep takes them one step further. -/
theorem improved_fst_eq_bestReturn [TransOrd A] {values : ValueTable S Rat} {steps : Nat}
    (agree : ∀ state, values.getD state 0 = model.bestReturn discount steps state) (state : S) :
    (model.improved discount values state).1 = model.bestReturn discount (steps + 1) state := by
  by_cases noActions : (model.actions state).toList = []
  · rw [improved_of_no_actions discount values noActions, agree, bestReturn_of_no_actions noActions,
      bestReturn_of_no_actions noActions]
  · obtain ⟨offer, offered, improvedEq, above⟩ :=
      exists_improved_eq discount values noActions
    simp only [agree] at improvedEq above
    rw [improvedEq, bestReturn]
    symm
    apply greatest_eq (List.mem_map_of_mem offered)
    intro value member
    obtain ⟨other, otherMem, rfl⟩ := List.mem_map.mp member
    exact (above other otherMem).1

variable [TransOrd S]

theorem getD_eq_bestReturn {values : ValueTable S Rat} {steps : Nat}
    (recorded : ∀ state, values[state]? =
      if model.contains state then some (model.bestReturn discount steps state) else none)
    (state : S) : values.getD state 0 = model.bestReturn discount steps state := by
  rw [TreeMap.getD_eq_getD_getElem?, recorded]
  split
  · rfl
  · rename_i unknown
    rw [bestReturn_of_no_actions (actions_toList_eq_nil unknown)]
    rfl

theorem improved_congr (discount : Rat) (values : ValueTable S Rat) {first second : S}
    (same : compare first second = .eq) :
    model.improved discount values first = model.improved discount values second := by
  simp only [improved, lookahead, weight?, model.outgoing_congr same, model.actions_congr same,
    TreeMap.getD_congr same]

variable (wellFormed : model.WellFormed)
include wellFormed

section Values

variable [TransOrd A]

/-- After some sweeps every state of the model has the greatest expected reward of as many
steps. -/
theorem WellFormed.getElem?_valueIteration (steps : Nat) (state : S) :
    (model.valueIteration discount steps).1[state]? =
      if model.contains state then some (model.bestReturn discount steps state) else none := by
  induction steps generalizing state with
  | zero =>
      have sameZero {first second : S} (_ : compare first second = .eq) :
          some (0 : Rat) = some 0 := rfl
      exact wellFormed.getElem?_foldl_record sameZero state
  | succ steps ih =>
      rw [valueIteration_succ, sweep_eq, wellFormed.getElem?_foldl_record
          fun same => by rw [improved_congr discount _ same],
        improved_fst_eq_bestReturn (getD_eq_bestReturn ih)]

theorem WellFormed.getD_valueIteration (discount : Rat) (steps : Nat) (state : S) :
    (model.valueIteration discount steps).1.getD state 0 =
      model.bestReturn discount steps state :=
  getD_eq_bestReturn (wellFormed.getElem?_valueIteration steps) state

end Values

variable [LawfulEqOrd S]

theorem WellFormed.getElem?_recorded {V : Type} (choose : S → Option V) (state : S) :
    (model.states.toList.foldl (record choose) ∅)[state]? =
      if model.contains state then choose state else none :=
  wellFormed.getElem?_foldl_record (fun same => by rw [LawfulEqOrd.eq_of_compare same]) state

theorem WellFormed.getElem?_valueIteration_policy (steps : Nat) (state : S) :
    (model.valueIteration discount (steps + 1)).2[state]? =
      (model.improved discount (model.valueIteration discount steps).1 state).2 := by
  rw [valueIteration_succ, sweep_eq, wellFormed.getElem?_recorded]
  split
  · rfl
  · rename_i unknown
    rw [improved_of_no_actions discount _ (actions_toList_eq_nil unknown)]

theorem WellFormed.policy_eq_none {state : S} (noActions : (model.actions state).toList = [])
    (steps : Nat) : (model.valueIteration discount (steps + 1)).2[state]? = none := by
  rw [wellFormed.getElem?_valueIteration_policy, improved_of_no_actions discount _ noActions]

variable [TransOrd A]

theorem WellFormed.exists_policy_eq (discount : Rat) (steps : Nat) {state : S}
    (hasActions : (model.actions state).toList ≠ []) :
    ∃ offer ∈ (model.actions state).toList,
      (model.valueIteration discount (steps + 1)).2[state]? = some offer.1 ∧
      model.promise discount (model.bestReturn discount steps) state offer =
        model.bestReturn discount (steps + 1) state ∧
      ∀ other ∈ (model.actions state).toList,
        model.promise discount (model.bestReturn discount steps) state other =
            model.bestReturn discount (steps + 1) state →
          (compare offer.1 other.1).isLE = true := by
  obtain ⟨offer, offered, improvedEq, above⟩ :=
    exists_improved_eq discount (model.valueIteration discount steps).1 hasActions
  have isBest := improved_fst_eq_bestReturn
    (wellFormed.getD_valueIteration discount steps) state
  simp only [wellFormed.getD_valueIteration] at improvedEq above
  rw [improvedEq] at isBest
  refine ⟨offer, offered, ?_, isBest, fun other otherMem promised => ?_⟩
  · rw [wellFormed.getElem?_valueIteration_policy, improvedEq]
  · exact (above other otherMem).2 (promised.trans isBest.symm)

end Model

end MarkovDecision
