import MarkovDecision.Proofs.Reachability.Horizon
import MarkovDecision.Proofs.Unfolding.Product

/-!
# Probabilities of the unfolded model

The distribution of an action of a pair carries over the probabilities of the transitions of its
state, transition by transition, to the nodes that they lead to.  Hence expected values can be
computed along the transitions, and the unfolded model of a resolved model is resolved.
-/

namespace MarkovDecision

open Std (TreeMap TransOrd LawfulEqOrd)

theorem getD_total? (values : List Rat) : ((total? values).map (0 + ·)).getD 0 = values.sum := by
  cases values with
  | nil => rfl
  | cons first rest =>
      rw [total?, Option.map_some, Option.getD_some, foldl_add_eq_add_sum, zero_add, List.sum_cons]

theorem sum_visible {values : List Rat}
    (visible : ∀ value ∈ values, value = 0 ∨ Model.negligible < value) :
    values.sum = 0 ∨ Model.negligible < values.sum := by
  have negligiblePos : (0 : Rat) < Model.negligible := decimal_pos 12
  induction values with
  | nil => exact Or.inl rfl
  | cons first rest ih =>
      rw [List.sum_cons]
      have firstVisible := visible first List.mem_cons_self
      have restVisible := ih fun value member => visible value (List.mem_cons_of_mem first member)
      rcases firstVisible with firstZero | firstLarge
      · rw [firstZero, zero_add]
        exact restVisible
      · right
        rcases restVisible with restZero | restLarge
        · rw [restZero, add_zero]
          exact firstLarge
        · linarith

namespace Model

variable {S A : Type} [Ord S] [TransOrd S] [LawfulEqOrd S] [Ord A] [TransOrd A]
  {model : Model S A Rat}

theorem WellFormed.exists_entry (wellFormed : model.WellFormed) {state : S}
    {transition : Transition S A Rat} (leaves : transition ∈ model.outgoing state) :
    ∃ offer ∈ (model.actions state).toList,
      (transition.target, transition.probability) ∈ offer.2.toList := by
  have isAction : (model.actions state).contains transition.action = true :=
    (contains_actions model state transition.action).mpr
      ⟨transition, leaves, Std.ReflCmp.compare_self⟩
  obtain ⟨offer, offered, -, found⟩ := ActionTable.exists_offer isAction
  refine ⟨offer, offered, TreeMap.mem_toList_iff_getElem?_eq_some.mpr ?_⟩
  rw [wellFormed.getElem?_distribution found, probability?,
    wellFormed.transition?_of_mem leaves ⟨Std.ReflCmp.compare_self, Std.ReflCmp.compare_self⟩,
    Option.map_some, Option.map_some, zero_add]

theorem Substochastic.transition_nonneg (proper : model.Substochastic)
    (wellFormed : model.WellFormed) {state : S} {transition : Transition S A Rat}
    (leaves : transition ∈ model.outgoing state) : 0 ≤ transition.probability := by
  obtain ⟨offer, offered, member⟩ := wellFormed.exists_entry leaves
  exact proper.nonneg state offer offered _ member

/-- Every probability is zero or above the size that counts as negligible. -/
def Visible (model : Model S A Rat) : Prop :=
  ∀ state, ∀ transition ∈ model.outgoing state,
    transition.probability = 0 ∨ negligible < transition.probability

theorem Resolved.visible_transitions (resolved : model.Resolved) (wellFormed : model.WellFormed) :
    model.Visible := by
  intro state transition leaves
  obtain ⟨offer, offered, member⟩ := wellFormed.exists_entry leaves
  exact resolved.visible state offer offered _ member

/-- The whole probability of a distribution is to stay. -/
def Stays (here : S) (distribution : Distribution S Rat) : Prop :=
  ∀ entry ∈ distribution.toList, entry.1 = here ∧ entry.2 = 1

theorem Stays.totalProbability_le_one {here : S} {distribution : Distribution S Rat}
    (stays : Stays here distribution) : totalProbability distribution ≤ 1 := by
  have totalEq : totalProbability distribution = distribution.getD here 0 := by
    classical
    let indicator (state : S) : Rat := if state = here then 1 else 0
    have isOne : indicator here = 1 := if_pos rfl
    calc totalProbability distribution
        = expected distribution (fun _ => 1) := by rw [expected_const, mul_one]
      _ = expected distribution indicator := by
        apply expected_congr
        intro entry member
        rw [(stays entry member).1, isOne]
      _ = distribution.getD here 0 :=
        expected_indicator distribution here isOne fun state other => if_neg other
  rw [totalEq, TreeMap.getD_eq_getD_getElem?]
  cases found : distribution[here]? with
  | none => exact zero_le_one
  | some probability =>
      exact (stays (here, probability) (TreeMap.mem_toList_iff_getElem?_eq_some.mpr found)).2.le

end Model

namespace Unfolding

variable {S A : Type} [Ord S] [TransOrd S] [LawfulEqOrd S] [Ord A] [TransOrd A]
  {model : Model S A Rat} {targets : LabelSet S} {keep : S → Rat → Bool} {source : S}
  {initialValue : Rat} {unfolding : Unfolding S A Rat}

section Step

variable {state : S} {value : Rat}
  (product : IsProduct model targets keep source initialValue unfolding)
  (wellFormed : model.WellFormed) (respects : RespectsKeys keep)
  (isKept : KeptPair model targets keep source initialValue state value)
  (noTarget : ¬targets.contains state = true) {action : A}
  {distribution : Distribution (UnfoldedState S Rat) Rat}
  (offered : (unfolding.model.actions (.pair state value))[UnfoldedAction.take action]? =
    some distribution)
include product wellFormed respects isKept noTarget offered

omit [LawfulEqOrd S] in
theorem IsProduct.getD_distribution (label : UnfoldedState S Rat) :
    distribution.getD label 0 =
      ((((model.outgoing state).filter (·.isUnder action)).filter fun transition =>
        sameLabel (destination keep value transition) label).map (·.probability)).sum := by
  have entryEq : distribution[label]? =
      (unfolding.model.actions (.pair state value)).probability? (.take action) label := by
    rw [ActionTable.probability?, offered, Option.bind_some]
  have sameTest : (contributes keep value (.take action) label : Transition S A Rat → Bool) =
      fun transition => sameLabel (destination keep value transition) label &&
        transition.isUnder action := by
    funext transition
    exact Bool.and_comm _ _
  rw [List.filter_filter, ← sameTest, ← getD_total?, ← foldl_takeIn_probability,
    TreeMap.getD_eq_getD_getElem?, entryEq]
  cases label with
  | bottom =>
      rw [product.prunedEntry isKept noTarget, ← stepEdge?_bottom]
      rfl
  | pair next nextValue =>
      rw [product.stepEntry isKept noTarget, wellFormed.probability?_actions,
        Model.probability?_eq_edge?]
      change _ = ((((stepEdge? model keep state value (.take action) (.pair next nextValue)).map
        (·.1)).map (0 + ·)).getD 0)
      rw [stepEdge?_pair wellFormed respects]
      split <;> rfl

theorem IsProduct.expected_step (values : UnfoldedState S Rat → Rat) :
    expected distribution values =
      (((model.outgoing state).filter (·.isUnder action)).map fun transition =>
        transition.probability * values (destination keep value transition)).sum :=
  expected_eq_sum_items (destination keep value) (·.probability)
    (product.getD_distribution wellFormed respects isKept noTarget offered) values

omit [TransOrd S] [LawfulEqOrd S] wellFormed respects in
theorem IsProduct.contains_action : (model.actions state).contains action = true := by
  have present : (unfolding.model.actions (.pair state value)).contains (.take action) = true := by
    rw [TreeMap.contains_eq_isSome_getElem?, offered]
    rfl
  obtain ⟨original, sameAction, isAction⟩ :=
    (product.stepActions isKept noTarget (.take action)).mp present
  cases sameAction
  exact isAction

theorem IsProduct.totalProbability_step_le (proper : model.Substochastic) :
    totalProbability distribution ≤ 1 := by
  obtain ⟨offer, offerMem, -, found⟩ :=
    ActionTable.exists_offer (product.contains_action isKept noTarget offered)
  have sameTotal : totalProbability distribution = totalProbability offer.2 := by
    rw [← mul_one (totalProbability distribution), ← expected_const,
      product.expected_step wellFormed respects isKept noTarget offered,
      ← model.expected_actions found fun _ => 1, expected_const, mul_one]
  rw [sameTotal]
  exact proper.total_le_one state offer offerMem

/-- An entry of a pair is the sum of the transitions that lead there. -/
theorem IsProduct.entry_eq_sum {entry : UnfoldedState S Rat × Rat}
    (member : entry ∈ distribution.toList) :
    ∃ transitions, transitions ⊆ model.outgoing state ∧
      entry.2 = (transitions.map (·.probability)).sum := by
  have gathered := product.getD_distribution wellFormed respects isKept noTarget offered entry.1
  rw [TreeMap.getD_eq_getD_getElem?, TreeMap.mem_toList_iff_getElem?_eq_some.mp member,
    Option.getD_some] at gathered
  exact ⟨_, fun transition isOne => List.mem_of_mem_filter (List.mem_of_mem_filter isOne), gathered⟩

omit wellFormed respects in
/-- The probability of staying in a pair is that of staying in its state without a change of the
value. -/
theorem IsProduct.entry_of_staying {entry : UnfoldedState S Rat × Rat}
    (member : entry ∈ distribution.toList) (same : compare entry.1 (.pair state value) = .eq) :
    leads model keep state value action state value = true ∧
      ∃ offer ∈ (model.actions state).toList, (state, entry.2) ∈ offer.2.toList := by
  obtain ⟨offer, offerMem, -, found⟩ :=
    ActionTable.exists_offer (product.contains_action isKept noTarget offered)
  obtain ⟨label, probability⟩ := entry
  have isHere : label = .pair state value := Std.compare_eq_iff_eq.mp same
  subst isHere
  have stepEntry := product.stepEntry isKept noTarget action state value
  rw [ActionTable.probability?, offered, Option.bind_some,
    TreeMap.mem_toList_iff_getElem?_eq_some.mp member] at stepEntry
  split at stepEntry
  · rename_i isLeading
    rw [ActionTable.probability?, found, Option.bind_some] at stepEntry
    exact ⟨isLeading, offer, offerMem, TreeMap.mem_toList_iff_getElem?_eq_some.mpr stepEntry.symm⟩
  · cases stepEntry

end Step

section Proper

variable (product : IsProduct model targets keep source initialValue unfolding)
include product

/-- A node stays for ever, or it is a pair outside the targets and has the actions of its state. -/
theorem IsProduct.stays_or_steps {label : UnfoldedState S Rat}
    {offer : UnfoldedAction A × Distribution (UnfoldedState S Rat) Rat}
    (offered : offer ∈ (unfolding.model.actions label).toList) :
    Model.Stays label offer.2 ∨ ∃ (state : S) (value : Rat) (action : A),
      label = .pair state value ∧
      KeptPair model targets keep source initialValue state value ∧
      ¬targets.contains state = true ∧
      (unfolding.model.actions (.pair state value))[UnfoldedAction.take action]? =
        some offer.2 := by
  have known := Model.contains_of_offer offered
  rcases (product.contains_iff label).mp known with rfl | ⟨state, value, rfl, isKept⟩
  · left
    intro entry member
    obtain ⟨isOne, -, isBottom⟩ :=
      (product.bottomEntry _ _ _).mp (ActionTable.probability?_of_mem offered member)
    exact ⟨isBottom, isOne⟩
  · by_cases isTarget : targets.contains state = true
    · left
      intro entry member
      obtain ⟨isOne, -, same⟩ := (product.targetEntry isKept isTarget _ _ _).mp
        (ActionTable.probability?_of_mem offered member)
      exact ⟨(Std.compare_eq_iff_eq.mp same).symm, isOne⟩
    · right
      have offerFound := ActionTable.getElem?_of_mem offered
      obtain ⟨original, isTake, -⟩ := (product.stepActions isKept isTarget offer.1).mp
        (ActionTable.contains_of_mem offered)
      rw [isTake] at offerFound
      exact ⟨state, value, original, rfl, isKept, isTarget, offerFound⟩

variable (wellFormed : model.WellFormed) (respects : RespectsKeys keep)
include wellFormed respects

/-- The distributions of the unfolded model are as proper as those of the model. -/
theorem IsProduct.substochastic (proper : model.Substochastic) :
    unfolding.model.Substochastic where
  nonneg label offer offered entry member := by
    rcases product.stays_or_steps offered with
      stays | ⟨state, value, action, -, isKept, noTarget, found⟩
    · exact (stays entry member).2 ▸ zero_le_one
    · obtain ⟨transitions, leave, sumEq⟩ :=
        product.entry_eq_sum wellFormed respects isKept noTarget found member
      rw [sumEq]
      apply List.sum_nonneg
      intro probability isOne
      obtain ⟨transition, transitionMem, rfl⟩ := List.mem_map.mp isOne
      exact proper.transition_nonneg wellFormed (leave transitionMem)
  total_le_one label offer offered := by
    rcases product.stays_or_steps offered with
      stays | ⟨state, value, action, -, isKept, noTarget, found⟩
    · exact stays.totalProbability_le_one
    · exact product.totalProbability_step_le wellFormed respects isKept noTarget found proper

/-- The unfolded model is resolved when the probabilities of the model are visible and every
chance of staying in a pair is. -/
theorem IsProduct.resolved_of_staying (proper : model.Substochastic) (visible : model.Visible)
    (staying : ∀ state value action, ¬targets.contains state = true →
      leads model keep state value action state value = true →
        ∀ offer ∈ (model.actions state).toList, ∀ probability,
          (state, probability) ∈ offer.2.toList → probability = 1 ∨ probability < 1 - Model.negligible) :
    unfolding.model.Resolved where
  toSubstochastic := product.substochastic wellFormed respects proper
  visible label offer offered entry member := by
    rcases product.stays_or_steps offered with
      stays | ⟨state, value, action, -, isKept, noTarget, found⟩
    · rw [(stays entry member).2]
      exact Or.inr Model.negligible_lt_one
    · obtain ⟨transitions, leave, sumEq⟩ :=
        product.entry_eq_sum wellFormed respects isKept noTarget found member
      rw [sumEq]
      apply sum_visible
      intro probability isOne
      obtain ⟨transition, transitionMem, rfl⟩ := List.mem_map.mp isOne
      exact visible state transition (leave transitionMem)
  staying label offer offered entry member same := by
    rcases product.stays_or_steps offered with
      stays | ⟨state, value, action, rfl, isKept, noTarget, found⟩
    · exact Or.inl (stays entry member).2
    · obtain ⟨isLeading, original, originalMem, entryMem⟩ :=
        product.entry_of_staying isKept noTarget found member same
      exact staying state value action noTarget isLeading original originalMem entry.2 entryMem

theorem IsProduct.resolved (resolved : model.Resolved) : unfolding.model.Resolved :=
  product.resolved_of_staying wellFormed respects resolved.toSubstochastic
    (resolved.visible_transitions wellFormed) fun state _ _ _ _ offer offered _ member =>
      resolved.staying state offer offered _ member Std.ReflCmp.compare_self

end Proper

theorem resolved_tryAgain : tryAgain.Resolved :=
  wellFormed_tryAgain.resolved_of_states (by decide +kernel)

end Unfolding

end MarkovDecision
