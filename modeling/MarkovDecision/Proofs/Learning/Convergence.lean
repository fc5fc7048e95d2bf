import MarkovDecision.Proofs.Learning.Bounds
import MarkovDecision.Proofs.Learning.Plans
import MarkovDecision.Proofs.Reachability.Horizon

/-!
# What more sweeps change

A sweep of value iteration brings two tables of values closer together by the discount factor,
whichever actions are the best in each of them.  No value is ever larger than the discounted sum of
the largest weights, so that after some sweeps the further ones change no value by more than this
sum, discounted by as many steps.

If no weight is positive, every further sweep lowers the values or leaves them, and if none is
negative it raises them.
-/

namespace MarkovDecision

open Std (TransOrd)

variable {S A : Type} [Ord S] [Ord A]

namespace Model

/-- No transition costs anything. -/
def OnlyGains (model : Model S A Rat) : Prop :=
  ∀ state, ∀ transition ∈ model.outgoing state, 0 ≤ transition.weight

variable {model : Model S A Rat} {discount : Rat}

theorem bestReturn_le_succ (nonneg : model.Nonnegative) (onlyGains : model.OnlyGains)
    (isDiscount : 0 ≤ discount) (steps : Nat) (state : S) :
    model.bestReturn discount steps state ≤ model.bestReturn discount (steps + 1) state := by
  induction steps generalizing state with
  | zero =>
      apply greatest_nonneg
      intro value member
      obtain ⟨offer, offered, rfl⟩ := List.mem_map.mp member
      apply expected_nonneg (nonneg state offer offered)
      intro entry _
      simpa [bestReturn] using
        getD_weight?_of_outgoing (0 ≤ ·) (le_refl 0) onlyGains state offer.1 entry.1
  | succ steps ih => exact bestReturn_succ_le_succ nonneg isDiscount ih state

namespace Substochastic

variable (proper : model.Substochastic)
include proper

theorem abs_expected_le {state : S} {offer : A × Distribution S Rat}
    (offered : offer ∈ (model.actions state).toList) {values : S → Rat} {bound : Rat}
    (boundNonneg : 0 ≤ bound) (within : ∀ entry ∈ offer.2.toList, |values entry.1| ≤ bound) :
    |expected offer.2 values| ≤ bound := by
  refine abs_le'.mpr ⟨?_, ?_⟩
  · exact proper.expected_le offered boundNonneg fun entry member =>
      (le_abs_self _).trans (within entry member)
  · rw [neg_eq_neg_one_mul, ← expected_const_mul]
    exact proper.expected_le offered boundNonneg fun entry member =>
      (neg_one_mul _).trans_le ((neg_le_abs _).trans (within entry member))

/-- No number of steps is worth more, or costs more, than the discounted sum of the largest
weights. -/
theorem abs_bestReturn_le (isDiscount : 0 ≤ discount ∧ discount < 1) {limit : Rat}
    (nonneg : 0 ≤ limit) (within : model.WeightsWithin limit) (steps : Nat) (state : S) :
    |model.bestReturn discount steps state| ≤ limit / (1 - discount) := by
  have boundNonneg : 0 ≤ limit / (1 - discount) :=
    div_nonneg nonneg (sub_nonneg.mpr isDiscount.2.le)
  induction steps generalizing state with
  | zero => exact abs_zero.trans_le boundNonneg
  | succ steps ih =>
      apply abs_greatest_le boundNonneg
      intro value member
      obtain ⟨offer, offered, rfl⟩ := List.mem_map.mp member
      apply proper.abs_expected_le offered boundNonneg
      intro entry _
      have rewardInside := getD_weight?_of_outgoing (|·| ≤ limit) (abs_zero.trans_le nonneg) within
        state offer.1 entry.1
      exact abs_add_mul_le isDiscount rewardInside (ih entry.1)

variable (isDiscount : 0 ≤ discount)
include isDiscount

/-- Where no value after a step is larger by more than a gap, an action does not promise more by
more than the discounted gap. -/
theorem promise_le_promise_add {state : S} {offer : A × Distribution S Rat}
    (offered : offer ∈ (model.actions state).toList) {first second : S → Rat} {gap : Rat}
    (gapNonneg : 0 ≤ gap) (close : ∀ state, first state ≤ second state + gap) :
    model.promise discount first state offer ≤
      model.promise discount second state offer + discount * gap := by
  have total := proper.total_le_one state offer offered
  calc model.promise discount first state offer
      ≤ model.promise discount (fun next => second next + gap) state offer :=
        promise_le_promise proper.nonneg isDiscount offered fun entry _ => close entry.1
    _ = model.promise discount second state offer +
          totalProbability offer.2 * (discount * gap) := by
        simp only [promise, mul_add, ← add_assoc, expected_add, expected_const]
    _ ≤ model.promise discount second state offer + discount * gap :=
        add_le_add le_rfl (mul_le_of_le_one_left (mul_nonneg isDiscount gapNonneg) total)

/-- One step more brings the returns of two numbers of steps closer by the discount factor. -/
theorem abs_bestReturn_succ_sub_le {first second : Nat} {gap : Rat}
    (close : ∀ state, |model.bestReturn discount first state -
      model.bestReturn discount second state| ≤ gap) (state : S) :
    |model.bestReturn discount (first + 1) state - model.bestReturn discount (second + 1) state| ≤
      discount * gap := by
  have gapNonneg : 0 ≤ gap := (abs_nonneg _).trans (close state)
  have shrinks {first second : Nat} (close : ∀ state,
      model.bestReturn discount first state ≤ model.bestReturn discount second state + gap) :
      model.bestReturn discount (first + 1) state ≤
        model.bestReturn discount (second + 1) state + discount * gap :=
    greatest_map_le_add (mul_nonneg isDiscount gapNonneg) fun offer offered =>
      proper.promise_le_promise_add isDiscount offered gapNonneg close
  rw [abs_sub_le_iff]
  simp only [abs_sub_le_iff, sub_le_iff_le_add'] at close ⊢
  exact ⟨shrinks fun state => (close state).1, shrinks fun state => (close state).2⟩

theorem abs_bestReturn_add_sub_le {first second : Nat} {gap : Rat}
    (close : ∀ state, |model.bestReturn discount first state -
      model.bestReturn discount second state| ≤ gap) (steps : Nat) (state : S) :
    |model.bestReturn discount (first + steps) state -
      model.bestReturn discount (second + steps) state| ≤ discount ^ steps * gap := by
  induction steps generalizing state with
  | zero => simpa using close state
  | succ steps ih =>
      rw [pow_succ', mul_assoc]
      exact proper.abs_bestReturn_succ_sub_le isDiscount ih state

/-- After some steps, more of them change a return by no more than the discounted sum of the largest
weights, discounted by the steps before. -/
theorem abs_bestReturn_sub_le (belowOne : discount < 1) {limit : Rat} (nonneg : 0 ≤ limit)
    (within : model.WeightsWithin limit) {fewer more : Nat} (fewerLe : fewer ≤ more) (state : S) :
    |model.bestReturn discount more state - model.bestReturn discount fewer state| ≤
      discount ^ fewer * limit / (1 - discount) := by
  obtain ⟨further, rfl⟩ := Nat.exists_eq_add_of_le' fewerLe
  have atStart (state : S) : |model.bestReturn discount further state -
      model.bestReturn discount 0 state| ≤ limit / (1 - discount) := by
    simpa only [bestReturn, sub_zero] using
      proper.abs_bestReturn_le ⟨isDiscount, belowOne⟩ nonneg within further state
  have later := proper.abs_bestReturn_add_sub_le isDiscount atStart fewer state
  rwa [zero_add, ← mul_div_assoc] at later

end Substochastic

variable [TransOrd S] [TransOrd A]

/-- With a discount factor below one, value iteration converges geometrically.  That a limit on the
weights is not negative needs to be said only of a model without transitions. -/
theorem WellFormed.abs_valueIteration_sub_le (wellFormed : model.WellFormed)
    (proper : model.Substochastic) (isDiscount : 0 ≤ discount ∧ discount < 1) {limit : Rat}
    (within : model.WeightsWithin limit)
    (isLimit : (∀ state, model.outgoing state = []) → 0 ≤ limit)
    {fewer more : Nat} (fewerLe : fewer ≤ more) {state : S} (known : model.contains state = true) :
    ∃ early late, (model.valueIteration discount fewer).1[state]? = some early ∧
      (model.valueIteration discount more).1[state]? = some late ∧
      |late - early| ≤ discount ^ fewer * limit / (1 - discount) := by
  have nonneg : 0 ≤ limit := by
    by_cases noTransitions : ∀ state, model.outgoing state = []
    · exact isLimit noTransitions
    · push Not at noTransitions
      obtain ⟨source, someTransition⟩ := noTransitions
      obtain ⟨transition, leaves⟩ := List.exists_mem_of_ne_nil _ someTransition
      exact (abs_nonneg _).trans (within source transition leaves)
  refine ⟨model.bestReturn discount fewer state, model.bestReturn discount more state, ?_, ?_,
    proper.abs_bestReturn_sub_le isDiscount.1 isDiscount.2 nonneg within fewerLe state⟩
  · rw [wellFormed.getElem?_valueIteration, if_pos known]
  · rw [wellFormed.getElem?_valueIteration, if_pos known]

/-- No weight of `earnOrToss` is larger than two, so after one sweep no value changes by more than
two any more; two sweeps later that of the first state has changed by five sixteenths. -/
theorem abs_valueIteration_sub_le_earnOrToss :
    earnOrToss.WellFormed ∧ earnOrToss.Substochastic ∧ earnOrToss.WeightsWithin 2 ∧
      ∃ early late : Rat, (earnOrToss.valueIteration (1 / 2) 1).1[0]? = some early ∧
        (earnOrToss.valueIteration (1 / 2) 3).1[0]? = some late ∧ |late - early| = 5 / 16 ∧
        |late - early| ≤ (1 / 2) ^ 1 * 2 / (1 - 1 / 2) := by
  have proper : earnOrToss.Substochastic :=
    ⟨nonnegative_earnOrToss, wellFormed_earnOrToss.forall_offers (by decide +kernel)⟩
  have within : earnOrToss.WeightsWithin 2 :=
    wellFormed_earnOrToss.forall_outgoing (by decide +kernel)
  obtain ⟨early, late, isEarly, isLate, close⟩ := wellFormed_earnOrToss.abs_valueIteration_sub_le
    proper (show 0 ≤ (1 / 2 : Rat) ∧ (1 / 2 : Rat) < 1 by decide +kernel) within
    (fun _ => zero_le_two) (show 1 ≤ 3 by decide) (show earnOrToss.contains 0 = true by decide)
  have firstSweep : (earnOrToss.valueIteration (1 / 2) 1).1[0]? = some (1 : Rat) := by
    decide +kernel
  have thirdSweep : (earnOrToss.valueIteration (1 / 2) 3).1[0]? = some (21 / 16 : Rat) := by
    decide +kernel
  cases firstSweep.symm.trans isEarly
  cases thirdSweep.symm.trans isLate
  exact ⟨wellFormed_earnOrToss, proper, within, 1, 21 / 16, isEarly, isLate, by decide +kernel,
    close⟩

/-- One sweep more lowers no value if no weight is negative, and raises none if no weight is
positive. -/
theorem WellFormed.valueIteration_monotone (wellFormed : model.WellFormed)
    (nonneg : model.Nonnegative) (isDiscount : 0 ≤ discount) (sweeps : Nat) {state : S}
    (known : model.contains state = true) :
    ∃ before after, (model.valueIteration discount sweeps).1[state]? = some before ∧
      (model.valueIteration discount (sweeps + 1)).1[state]? = some after ∧
      (model.OnlyCosts → after ≤ before) ∧ (model.OnlyGains → before ≤ after) := by
  refine ⟨model.bestReturn discount sweeps state, model.bestReturn discount (sweeps + 1) state,
    ?_, ?_, ?_, ?_⟩
  · rw [wellFormed.getElem?_valueIteration, if_pos known]
  · rw [wellFormed.getElem?_valueIteration, if_pos known]
  · exact fun onlyCosts => bestReturn_succ_le nonneg onlyCosts isDiscount sweeps state
  · exact fun onlyGains => bestReturn_le_succ nonneg onlyGains isDiscount sweeps state

/-- In `shortcut` everything costs something, and a second sweep finds the second step of the way;
in `earnOrToss` nothing does, and a second sweep finds what a toss can still earn. -/
theorem valueIteration_monotone_shortcut :
    (shortcut.WellFormed ∧ shortcut.Nonnegative ∧ shortcut.OnlyCosts ∧
      ∃ before after : Rat, (shortcut.valueIteration 1 1).1[0]? = some before ∧
        (shortcut.valueIteration 1 2).1[0]? = some after ∧ after = -2 ∧ after ≤ before) ∧
    earnOrToss.WellFormed ∧ earnOrToss.Nonnegative ∧ earnOrToss.OnlyGains ∧
      ∃ before after : Rat, (earnOrToss.valueIteration (1 / 2) 1).1[0]? = some before ∧
        (earnOrToss.valueIteration (1 / 2) 2).1[0]? = some after ∧ after = 5 / 4 ∧
        before ≤ after := by
  have onlyGains : earnOrToss.OnlyGains :=
    wellFormed_earnOrToss.forall_outgoing (by decide +kernel)
  have nonneg := deterministic_shortcut.nonnegative
  obtain ⟨before, after, isBefore, isAfter, lowers, -⟩ :=
    wellFormed_shortcut.valueIteration_monotone nonneg (show (0 : Rat) ≤ 1 by decide) 1
      (show shortcut.contains 0 = true by decide)
  obtain ⟨first, second, isFirst, isSecond, -, raises⟩ :=
    wellFormed_earnOrToss.valueIteration_monotone nonnegative_earnOrToss
      (show (0 : Rat) ≤ 1 / 2 by decide +kernel) 1 (show earnOrToss.contains 0 = true by decide)
  have twoSteps : (shortcut.valueIteration 1 2).1[0]? = some (-2 : Rat) := by decide +kernel
  have twoTosses : (earnOrToss.valueIteration (1 / 2) 2).1[0]? = some (5 / 4 : Rat) := by
    decide +kernel
  cases twoSteps.symm.trans isAfter
  cases twoTosses.symm.trans isSecond
  exact ⟨⟨wellFormed_shortcut, nonneg, onlyCosts_shortcut, before, -2, isBefore, isAfter, rfl,
      lowers onlyCosts_shortcut⟩,
    wellFormed_earnOrToss, nonnegative_earnOrToss, onlyGains, first, 5 / 4, isFirst, isSecond, rfl,
    raises onlyGains⟩

end Model

end MarkovDecision
