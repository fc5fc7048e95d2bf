import Mathlib.Algebra.BigOperators.Intervals
import Mathlib.Algebra.BigOperators.Ring.Finset
import Mathlib.Order.Bounds.Basic
import MarkovDecision.Proofs.Learning.Sweeps

/-!
# Plans for a number of steps

A plan says what to do in a state with a number of steps left.  Its return is the sum of the
expected rewards of its steps, each discounted by the number of steps before it.  Value iteration
computes the greatest return of all plans, and its policy takes in every state the least action
with which a best plan can begin.
-/

namespace MarkovDecision

open Std (TreeMap TransOrd LawfulEqOrd OrientedCmp ReflCmp)

variable {S A : Type} [Ord S] [Ord A]

/-- What to do in a state with a number of steps left. -/
abbrev Plan (S A : Type) : Type :=
  Nat → S → Option A

/-- As long as there are steps left, the plan takes an action of every state that has any. -/
def Plan.Legal (plan : Plan S A) (model : Model S A Rat) : Prop :=
  ∀ left state, match plan (left + 1) state with
    | none => (model.actions state).toList = []
    | some action => (model.actions state).contains action = true

namespace Model

/-- The expected value, after one step of a plan, of something that depends on the action and the
next state.  It is zero where the plan has come to its end. -/
def afterStep (model : Model S A Rat) (plan : Plan S A) (left : Nat) (state : S)
    (values : A → S → Rat) : Rat :=
  match plan left state with
  | none => 0
  | some action => expected ((model.actions state).getD action ∅) (values action)

/-- The expected reward of the step of a plan that comes after some others, from a state with a
number of steps left. -/
def stepReward (model : Model S A Rat) (plan : Plan S A) : Nat → Nat → S → Rat
  | _, 0, _ => 0
  | 0, left + 1, state => model.afterStep plan (left + 1) state fun action next =>
      (model.weight? state action (some next)).getD 0
  | elapsed + 1, left + 1, state =>
      model.afterStep plan (left + 1) state fun _ => model.stepReward plan elapsed left

/-- The expected discounted sum of the rewards of a number of steps. -/
def planReturn (model : Model S A Rat) (discount : Rat) (plan : Plan S A) (steps : Nat)
    (state : S) : Rat :=
  ∑ elapsed ∈ Finset.range steps, discount ^ elapsed * model.stepReward plan elapsed steps state

/-- Whether a plan that does best in a number of steps can begin with an action. -/
def BeginsBest (model : Model S A Rat) (discount : Rat) (steps : Nat) (state : S) (action : A) :
    Prop :=
  ∃ plan : Plan S A, plan.Legal model ∧ plan steps state = some action ∧
    ∀ other : Plan S A, other.Legal model →
      model.planReturn discount other steps state ≤ model.planReturn discount plan steps state

/-- The plan that takes, with a number of steps left, what as many sweeps choose. -/
def sweepPlan (model : Model S A Rat) (discount : Rat) : Plan S A :=
  fun left state => (model.valueIteration discount left).2[state]?

variable {model : Model S A Rat} {discount : Rat} {plan : Plan S A}

theorem planReturn_succ (steps : Nat) (state : S) :
    model.planReturn discount plan (steps + 1) state =
      model.afterStep plan (steps + 1) state fun action next =>
        (model.weight? state action (some next)).getD 0 +
          discount * model.planReturn discount plan steps next := by
  -- The first summand belongs to the step that comes now.  Each of the others is a step of the rest
  -- of the plan, one discount further on.
  rw [planReturn, Finset.sum_range_succ']
  simp only [stepReward, afterStep]
  cases plan (steps + 1) state with
  | none => simp
  | some action =>
      have later (elapsed : Nat) (distribution : Distribution S Rat) :
          discount ^ (elapsed + 1) * expected distribution (model.stepReward plan elapsed steps) =
            expected distribution fun next =>
              discount * (discount ^ elapsed * model.stepReward plan elapsed steps next) := by
        rw [expected_const_mul, expected_const_mul, ← mul_assoc, pow_succ']
      simp only [later, ← expected_finset_sum, ← Finset.mul_sum, pow_zero, one_mul]
      rw [← expected_add]
      simp only [planReturn, add_comm]

theorem planReturn_of_none {steps : Nat} {state : S} (ended : plan (steps + 1) state = none) :
    model.planReturn discount plan (steps + 1) state = 0 := by
  rw [planReturn_succ, afterStep, ended]

variable [TransOrd A]

theorem planReturn_of_some {steps : Nat} {state : S} {action : A}
    {distribution : Distribution S Rat} (chosen : plan (steps + 1) state = some action)
    (found : (model.actions state)[action]? = some distribution) :
    model.planReturn discount plan (steps + 1) state =
      model.promise discount (model.planReturn discount plan steps) state
        (action, distribution) := by
  simp only [planReturn_succ, afterStep, chosen, TreeMap.getD_eq_getD_getElem?, found,
    Option.getD_some]
  rfl

variable [TransOrd S]

theorem exists_planReturn_eq (isLegal : plan.Legal model) {steps : Nat} {state : S} {action : A}
    (chosen : plan (steps + 1) state = some action) :
    ∃ offer ∈ (model.actions state).toList, compare offer.1 action = .eq ∧
      ∀ discount, model.planReturn discount plan (steps + 1) state =
        model.promise discount (model.planReturn discount plan steps) state offer := by
  have contained := isLegal steps state
  rw [chosen] at contained
  obtain ⟨offer, offered, same, found⟩ := ActionTable.exists_offer contained
  refine ⟨offer, offered, same, fun discount => ?_⟩
  rw [planReturn_of_some chosen found, ← promise_congr _ state same]

/-- No plan does better than the recursion over the number of steps. -/
theorem planReturn_le_bestReturn (nonneg : model.Nonnegative) (isDiscount : 0 ≤ discount)
    (isLegal : plan.Legal model) (steps : Nat) (state : S) :
    model.planReturn discount plan steps state ≤ model.bestReturn discount steps state := by
  induction steps generalizing state with
  | zero => exact le_refl 0
  | succ steps ih =>
      cases chosen : plan (steps + 1) state with
      | none =>
          have noActions := isLegal steps state
          rw [chosen] at noActions
          rw [planReturn_of_none chosen, bestReturn_of_no_actions noActions]
      | some action =>
          obtain ⟨offer, offered, -, returnEq⟩ := exists_planReturn_eq isLegal chosen
          rw [returnEq]
          exact (promise_le_promise nonneg isDiscount offered fun entry _ =>
            ih entry.1).trans (promise_le_bestReturn offered steps)

section Sweeping

variable [LawfulEqOrd S] (wellFormed : model.WellFormed)
include wellFormed

theorem WellFormed.legal_sweepPlan (discount : Rat) : (model.sweepPlan discount).Legal model := by
  intro left state
  by_cases noActions : (model.actions state).toList = []
  · rw [sweepPlan, wellFormed.policy_eq_none noActions]
    exact noActions
  · obtain ⟨offer, offered, policyEq, -⟩ := wellFormed.exists_policy_eq discount left noActions
    rw [sweepPlan, policyEq]
    exact ActionTable.contains_of_mem offered

/-- The plan of the sweeps attains the values of the recursion. -/
theorem WellFormed.planReturn_sweepPlan (discount : Rat) (steps : Nat) (state : S) :
    model.planReturn discount (model.sweepPlan discount) steps state =
      model.bestReturn discount steps state := by
  induction steps generalizing state with
  | zero => rfl
  | succ steps ih =>
      by_cases noActions : (model.actions state).toList = []
      · rw [bestReturn_of_no_actions noActions,
          planReturn_of_none (wellFormed.policy_eq_none noActions steps)]
      · obtain ⟨offer, offered, policyEq, isBest, -⟩ :=
          wellFormed.exists_policy_eq discount steps noActions
        rw [planReturn_of_some policyEq (ActionTable.getElem?_of_mem offered), ← isBest, funext ih]

variable (nonneg : model.Nonnegative) (isDiscount : 0 ≤ discount)
include nonneg isDiscount

theorem WellFormed.isGreatest_bestReturn (steps : Nat) (state : S) :
    IsGreatest {gain | ∃ plan : Plan S A, plan.Legal model ∧
        model.planReturn discount plan steps state = gain}
      (model.bestReturn discount steps state) := by
  refine ⟨⟨model.sweepPlan discount, wellFormed.legal_sweepPlan discount,
    wellFormed.planReturn_sweepPlan discount steps state⟩, ?_⟩
  rintro _ ⟨plan, isLegal, rfl⟩
  exact planReturn_le_bestReturn nonneg isDiscount isLegal steps state

/-- A plan can begin with the choice of the sweeps and do best. -/
theorem WellFormed.beginsBest_of_policy {steps : Nat} {state : S} {action : A}
    (chosen : (model.valueIteration discount steps).2[state]? = some action) :
    model.BeginsBest discount steps state action := by
  refine ⟨model.sweepPlan discount, wellFormed.legal_sweepPlan discount, chosen, ?_⟩
  intro other isLegal
  rw [wellFormed.planReturn_sweepPlan]
  exact planReturn_le_bestReturn nonneg isDiscount isLegal steps state

theorem WellFormed.exists_promise_eq_of_beginsBest {steps : Nat} {state : S} {action : A}
    (begins : model.BeginsBest discount (steps + 1) state action) :
    ∃ offer ∈ (model.actions state).toList, compare offer.1 action = .eq ∧
      model.promise discount (model.bestReturn discount steps) state offer =
        model.bestReturn discount (steps + 1) state := by
  obtain ⟨plan, isLegal, chosen, isBest⟩ := begins
  obtain ⟨offer, offered, same, returnEq⟩ := exists_planReturn_eq isLegal chosen
  refine ⟨offer, offered, same, le_antisymm (promise_le_bestReturn offered steps) ?_⟩
  calc model.bestReturn discount (steps + 1) state
      = model.planReturn discount (model.sweepPlan discount) (steps + 1) state :=
        (wellFormed.planReturn_sweepPlan discount (steps + 1) state).symm
    _ ≤ model.planReturn discount plan (steps + 1) state :=
        isBest _ (wellFormed.legal_sweepPlan discount)
    _ = model.promise discount (model.planReturn discount plan steps) state offer :=
        returnEq discount
    _ ≤ model.promise discount (model.bestReturn discount steps) state offer :=
        promise_le_promise nonneg isDiscount offered fun entry _ =>
          planReturn_le_bestReturn nonneg isDiscount isLegal steps entry.1

/-- The values of value iteration are the greatest returns of all plans for as many steps as there
are sweeps.  With a sweep at least, the policy has an action for exactly the states that have one:
the least with which a best plan can begin. -/
theorem WellFormed.valueIteration_optimal (steps : Nat) :
    (∀ state, model.contains state = true →
      ∃ value, (model.valueIteration discount steps).1[state]? = some value ∧
        IsGreatest {gain | ∃ plan : Plan S A, plan.Legal model ∧
          model.planReturn discount plan steps state = gain} value) ∧
    (0 < steps → ∀ state,
      ((model.valueIteration discount steps).2.contains state = true ↔
        (model.actions state).toList ≠ []) ∧
      ∀ action, (model.valueIteration discount steps).2[state]? = some action →
        model.BeginsBest discount steps state action ∧
        ∀ other, model.BeginsBest discount steps state other →
          (compare action other).isLE = true) := by
  constructor
  · intro state known
    refine ⟨model.bestReturn discount steps state, ?_,
      wellFormed.isGreatest_bestReturn nonneg isDiscount steps state⟩
    rw [wellFormed.getElem?_valueIteration, if_pos known]
  · intro hasSteps state
    obtain ⟨before, rfl⟩ := Nat.exists_eq_add_one.mpr hasSteps
    rw [TreeMap.contains_eq_isSome_getElem?]
    by_cases noActions : (model.actions state).toList = []
    · rw [wellFormed.policy_eq_none noActions]
      simp [noActions]
    · obtain ⟨offer, offered, policyEq, -, isFirst⟩ :=
        wellFormed.exists_policy_eq discount before noActions
      refine ⟨by rw [policyEq]; simp [noActions], fun action chosen =>
        ⟨wellFormed.beginsBest_of_policy nonneg isDiscount chosen, fun other begins => ?_⟩⟩
      rw [policyEq] at chosen
      cases chosen
      obtain ⟨tied, tiedMem, same, promised⟩ :=
        wellFormed.exists_promise_eq_of_beginsBest nonneg isDiscount begins
      exact Std.TransCmp.isLE_trans (isFirst tied tiedMem promised) (by simp [same])

end Sweeping

/-- A state that earns one right away under its first action, or tosses for two and another try
under its second. -/
def earnOrToss : Model Nat Nat Rat :=
  ((Model.empty.addTransition 0 0 1 1 1).addTransition 0 1 0 (1 / 2) 2).addTransition
    0 1 1 (1 / 2) 0

theorem wellFormed_earnOrToss : earnOrToss.WellFormed :=
  ((wellFormed_empty.addTransition 0 0 1 1 1).addTransition 0 1 0 (1 / 2) 2).addTransition
    0 1 1 (1 / 2) 0

theorem nonnegative_earnOrToss : earnOrToss.Nonnegative :=
  wellFormed_earnOrToss.forall_offers (by decide +kernel)

/-- With two steps to go the toss is worth a quarter more, and no best plan begins with the first
action. -/
theorem valueIteration_optimal_earnOrToss :
    IsGreatest {gain | ∃ plan : Plan Nat Nat, plan.Legal earnOrToss ∧
      earnOrToss.planReturn (1 / 2) plan 2 0 = gain} (5 / 4) ∧
    earnOrToss.BeginsBest (1 / 2) 2 0 1 ∧
    ∀ other, earnOrToss.BeginsBest (1 / 2) 2 0 other → (compare 1 other).isLE = true := by
  obtain ⟨values, choices⟩ := wellFormed_earnOrToss.valueIteration_optimal nonnegative_earnOrToss
    (show (0 : Rat) ≤ 1 / 2 by decide +kernel) 2
  have valueEq : (earnOrToss.valueIteration (1 / 2) 2).1[0]? = some (5 / 4) := by decide +kernel
  have choiceEq : (earnOrToss.valueIteration (1 / 2) 2).2[0]? = some 1 := by decide +kernel
  obtain ⟨value, isValue, isGreatest⟩ := values 0 (by decide)
  rw [valueEq] at isValue
  cases isValue
  exact ⟨isGreatest, (choices (by decide) 0).2 1 choiceEq⟩

end Model

end MarkovDecision
