import MarkovDecision.LinearProgram.Components
import MarkovDecision.Proofs.Guarantee.Answer
import Mathlib.Data.List.Induction

/-!
# The projected policy

The projection of an answer goes through the decisions of the policy and keeps, for each state of
the model, the one with the greatest value.  `Richest` says so of the table that it has built from
some of the decisions; one decision more keeps it.  So the projected policy is defined in just those
states in which the policy takes an action at all, and does there what the policy does with the
greatest value.  Since the policy decides in kept pairs only, it takes nothing but actions of the
model: outside the targets those of the state, in targets those that may stay.

Values are compared as numbers, but the pairs of the unfolded model are told apart by the keys of
their values; both orders have to be the same for the values that occur.
-/

namespace MarkovDecision

open Std (TreeMap TransOrd OrientedCmp ReflCmp TransCmp)

namespace Guarantee

variable {S A R : Type} [Ord S] [Ord A] [Number R]

/-- Takes up a decision in its state where its value is greater than the best one before. -/
def takeRicher (best : TreeMap S (R × A)) : S × R × A → TreeMap S (R × A)
  | (state, value, action) =>
    let richer := match best[state]? with
      | some (known, _) => decide (known < value)
      | none => true
    if richer then best.insert state (value, action) else best

theorem projectedPolicy_eq (guarantee : Guarantee S A R) : guarantee.projectedPolicy =
    (guarantee.decisions.foldl takeRicher ∅).map fun _ entry => entry.2 :=
  rfl

/-- The values of some decisions are totally ordered: one of them is less than another just where
its key is. -/
def OrderedValues (decisions : List (S × R × A)) : Prop :=
  ∀ first ∈ decisions, ∀ second ∈ decisions,
    first.2.1 < second.2.1 ↔ Number.keyOrder first.2.1 second.2.1 = .lt

omit [Ord S] [Ord A] in
theorem OrderedValues.mono {decisions fewer : List (S × R × A)} (ordered : OrderedValues decisions)
    (included : fewer ⊆ decisions) : OrderedValues fewer :=
  fun first firstMem second secondMem =>
    ordered first (included firstMem) second (included secondMem)

omit [Ord S] [Ord A] in
theorem orderedValues_exact (decisions : List (S × Rat × A)) : OrderedValues decisions := by
  intro first _ second _
  rw [keyOrder_eq_compare, compare_lt_iff_lt]

section Fold

/-- What a table holds after some decisions: each of its entries is one of them, and none of them
has a greater value than the entry of its state. -/
structure Richest (decisions : List (S × R × A)) (best : TreeMap S (R × A)) : Prop where
  exists_decision : ∀ {state entry}, best[state]? = some entry →
    ∃ label, compare label state = .eq ∧ (label, entry) ∈ decisions
  covers : ∀ decision ∈ decisions, ∃ entry, best[decision.1]? = some entry ∧
    (Number.keyOrder decision.2.1 entry.1).isLE = true

variable [TransOrd S] [LawfulNumber R] {decisions : List (S × R × A)} {best : TreeMap S (R × A)}
  {decision : S × R × A}

omit [Ord A] [LawfulNumber R] in
theorem richest_nil : Richest ([] : List (S × R × A)) (∅ : TreeMap S (R × A)) where
  exists_decision := by simp
  covers := by simp

omit [Ord A] [TransOrd S] [LawfulNumber R] in
theorem Richest.keep (richest : Richest decisions best) {entry : R × A}
    (found : best[decision.1]? = some entry)
    (isLE : (Number.keyOrder decision.2.1 entry.1).isLE = true) :
    Richest (decisions ++ [decision]) best where
  exists_decision listed := by
    obtain ⟨label, same, member⟩ := richest.exists_decision listed
    exact ⟨label, same, List.mem_append_left _ member⟩
  covers other member := by
    rcases List.mem_append.mp member with earlier | isLast
    · exact richest.covers other earlier
    · rw [List.mem_singleton.mp isLast]
      exact ⟨entry, found, isLE⟩

omit [Ord A] in
theorem Richest.insert (richest : Richest decisions best)
    (isGreatest : ∀ entry, best[decision.1]? = some entry →
      (Number.keyOrder entry.1 decision.2.1).isLE = true) :
    Richest (decisions ++ [decision]) (best.insert decision.1 decision.2) where
  exists_decision {state entry} listed := by
    rw [TreeMap.getElem?_insert] at listed
    split at listed
    · rename_i same
      cases listed
      exact ⟨decision.1, same, by simp⟩
    · obtain ⟨label, same, member⟩ := richest.exists_decision listed
      exact ⟨label, same, List.mem_append_left _ member⟩
  covers other member := by
    rw [TreeMap.getElem?_insert]
    rcases List.mem_append.mp member with earlier | isLast
    · obtain ⟨entry, found, isLE⟩ := richest.covers other earlier
      split
      · rename_i same
        rw [← TreeMap.getElem?_congr same] at found
        exact ⟨decision.2, rfl, TransCmp.isLE_trans isLE (isGreatest entry found)⟩
      · exact ⟨entry, found, isLE⟩
    · rw [List.mem_singleton.mp isLast, if_pos ReflCmp.compare_self]
      exact ⟨decision.2, rfl, ReflCmp.isLE_rfl⟩

omit [Ord A] in
theorem Richest.takeRicher (richest : Richest decisions best)
    (ordered : OrderedValues (decisions ++ [decision])) :
    Richest (decisions ++ [decision]) (takeRicher best decision) := by
  unfold Guarantee.takeRicher
  dsimp only
  cases found : best[decision.1]? with
  | none => exact richest.insert (by simp [found])
  | some entry =>
      -- The entry was a decision once, so its value is ordered with the new one.
      obtain ⟨label, -, member⟩ := richest.exists_decision found
      have lessIff : entry.1 < decision.2.1 ↔ Number.keyOrder entry.1 decision.2.1 = .lt :=
        ordered (label, entry) (List.mem_append_left _ member) decision (by simp)
      by_cases isLess : entry.1 < decision.2.1
      · rw [if_pos (decide_eq_true isLess)]
        apply richest.insert
        intro other otherFound
        cases found.symm.trans otherFound
        rw [lessIff.mp isLess]
        rfl
      · rw [if_neg (by simpa using isLess)]
        have isGE := Ordering.isGE_iff_ne_lt.mpr (mt lessIff.mpr isLess)
        exact richest.keep found (OrientedCmp.isLE_of_isGE isGE)

omit [Ord A] in
theorem richest_foldl (decisions : List (S × R × A)) (ordered : OrderedValues decisions) :
    Richest decisions (decisions.foldl Guarantee.takeRicher ∅) := by
  induction decisions using List.reverseRecOn with
  | nil => exact richest_nil
  | append_singleton earlier last ih =>
      rw [List.foldl_append, List.foldl_cons, List.foldl_nil]
      exact (ih (ordered.mono (List.subset_append_left _ _))).takeRicher ordered

end Fold

section Decisions

variable [TransOrd S] [LawfulNumber R] {guarantee : Guarantee S A R} {state : S} {value : R}
  {action : A}

omit [TransOrd S] [LawfulNumber R] in
theorem mem_decisions_iff : (state, value, action) ∈ guarantee.decisions ↔
    (UnfoldedState.pair state value, UnfoldedAction.take action) ∈ guarantee.policy.toList := by
  rw [decisions, List.mem_filterMap]
  constructor
  · rintro ⟨⟨label, entry⟩, member, decided⟩
    cases label <;> cases entry <;> cases decided
    exact member
  · exact fun member => ⟨_, member, rfl⟩

theorem action?_of_mem_decisions (member : (state, value, action) ∈ guarantee.decisions) :
    guarantee.action? state value = some action := by
  rw [action?, getElem?_of_mem_toList (mem_decisions_iff.mp member)]
  rfl

theorem exists_decision_of_action? (decided : guarantee.action? state value = some action) :
    ∃ label key, compare label state = .eq ∧ Number.keyOrder key value = .eq ∧
      (label, key, action) ∈ guarantee.decisions := by
  obtain ⟨stored, same, member⟩ :=
    TreeMap.getElem?_eq_some_iff_exists_compare_eq_eq_and_mem_toList.mp
      (action?_eq_some_iff.mp decided)
  cases stored with
  | bottom => cases same
  | pair label key =>
      obtain ⟨sameState, sameKey⟩ := (UnfoldedState.compare_pair_eq_iff _ _ _ _).mp same
      exact ⟨label, key, OrientedCmp.eq_symm sameState, OrientedCmp.eq_symm sameKey,
        mem_decisions_iff.mpr member⟩

theorem action?_congr {label : S} {key : R} (sameState : compare label state = .eq)
    (sameKey : Number.keyOrder key value = .eq) :
    guarantee.action? label key = guarantee.action? state value := by
  have sameNode : compare (UnfoldedState.pair label key) (.pair state value) = .eq :=
    (UnfoldedState.compare_pair_eq_iff _ _ _ _).mpr ⟨sameState, sameKey⟩
  rw [action?, action?, TreeMap.getElem?_congr sameNode]

/-- The policy takes an action in a state with a value, and none with a greater value. -/
structure TakesRichest (guarantee : Guarantee S A R) (state : S) (value : R) (action : A) :
    Prop where
  decided : guarantee.action? state value = some action
  greatest : ∀ other otherAction, guarantee.action? state other = some otherAction →
    (Number.keyOrder other value).isLE = true

theorem TakesRichest.unique {other : R} {otherAction : A}
    (richest : guarantee.TakesRichest state value action)
    (otherRichest : guarantee.TakesRichest state other otherAction) : action = otherAction := by
  -- Each of the values is at most the other one, so they make the same pair.
  have sameKey : Number.keyOrder value other = .eq :=
    OrientedCmp.isLE_antisymm (otherRichest.greatest value action richest.decided)
      (richest.greatest other otherAction otherRichest.decided)
  have sameAction := richest.decided.symm.trans
    ((action?_congr ReflCmp.compare_self sameKey).trans otherRichest.decided)
  cases sameAction
  rfl

variable (ordered : OrderedValues guarantee.decisions)
include ordered

theorem exists_takesRichest_of_projectedPolicy
    (projected : guarantee.projectedPolicy[state]? = some action) :
    ∃ value, guarantee.TakesRichest state value action := by
  have richest := richest_foldl guarantee.decisions ordered
  rw [projectedPolicy_eq, TreeMap.getElem?_map', Option.pmap_eq_map,
    Option.map_eq_some_iff] at projected
  obtain ⟨⟨value, _⟩, found, rfl⟩ := projected
  obtain ⟨label, same, member⟩ := richest.exists_decision found
  refine ⟨value, ?_, ?_⟩
  · rw [← action?_congr same ReflCmp.compare_self]
    exact action?_of_mem_decisions member
  · intro other otherAction decided
    obtain ⟨otherLabel, key, otherSame, sameKey, otherMem⟩ := exists_decision_of_action? decided
    obtain ⟨entry, otherFound, isLE⟩ := richest.covers _ otherMem
    rw [TreeMap.getElem?_congr otherSame, found] at otherFound
    cases otherFound
    rwa [← TransCmp.congr_left sameKey]

theorem contains_projectedPolicy_iff : guarantee.projectedPolicy.contains state = true ↔
    ∃ value action, guarantee.action? state value = some action := by
  have richest := richest_foldl guarantee.decisions ordered
  constructor
  · intro present
    rw [TreeMap.contains_eq_isSome_getElem?] at present
    obtain ⟨action, projected⟩ := Option.isSome_iff_exists.mp present
    obtain ⟨value, takes⟩ := exists_takesRichest_of_projectedPolicy ordered projected
    exact ⟨value, action, takes.decided⟩
  · rintro ⟨value, action, decided⟩
    obtain ⟨label, key, same, -, member⟩ := exists_decision_of_action? decided
    obtain ⟨entry, found, -⟩ := richest.covers _ member
    rw [projectedPolicy_eq, TreeMap.contains_map, TreeMap.contains_eq_isSome_getElem?,
      ← TreeMap.getElem?_congr same, found]
    rfl

/-- The projected policy does in a state what the policy does with the greatest value. -/
theorem projectedPolicy_eq_some_iff : guarantee.projectedPolicy[state]? = some action ↔
    ∃ value, guarantee.TakesRichest state value action := by
  refine ⟨exists_takesRichest_of_projectedPolicy ordered, ?_⟩
  rintro ⟨value, takes⟩
  have present := (contains_projectedPolicy_iff ordered).mpr ⟨value, action, takes.decided⟩
  rw [TreeMap.contains_eq_isSome_getElem?] at present
  obtain ⟨other, projected⟩ := Option.isSome_iff_exists.mp present
  obtain ⟨otherValue, otherTakes⟩ := exists_takesRichest_of_projectedPolicy ordered projected
  rw [projected, takes.unique otherTakes]

end Decisions

section Answered

variable [TransOrd S] [TransOrd A] [LawfulNumber R] {model : Model S A R} {solver : Solver R}
  {question : Question S R} {settings : UnfoldSettings R} {guarantee : Guarantee S A R}

/-- The policy does not loop in a state in which it also takes an action: it loops in targets
without an action that may stay, and takes only such actions in targets. -/
theorem action?_eq_none_of_loop {keep : S → R → Bool}
    (product : Unfolding.IsProduct model question.targets keep question.source
      settings.initialValue guarantee.unfolding)
    (answered : answer model solver question settings = .ok guarantee) {state : S} {value : R}
    (loops : guarantee.policy[UnfoldedState.pair state value]? = some .loop) (other : R) :
    guarantee.action? state other = none := by
  rw [Option.eq_none_iff_forall_ne_some]
  intro action decided
  have listed := action?_eq_some_iff.mp decided
  by_cases isTarget : question.targets.contains state = true
  · have nothingStays : ∀ action, ¬Unfolding.stays model state action = true :=
      loops_of_policy product answered isTarget loops
    exact nothingStays action (loops_of_policy product answered isTarget listed)
  · obtain ⟨_, isTake, -⟩ := exists_take_of_policy product answered isTarget loops
    cases isTake

/-- The projected policy of an answer is defined in the states in which the policy takes an action
with some value.  It does there what the policy does with the greatest of these values, which is an
action of the state, and no state has both an action that is taken and a loop. -/
theorem projectedPolicy_takes_richest (wellFormed : model.WellFormed)
    (answered : answer model solver question settings = .ok guarantee)
    (ordered : OrderedValues guarantee.decisions) :
    (∀ state : S, guarantee.projectedPolicy.contains state = true ↔
      ∃ (value : R) (action : A),
        guarantee.policy[UnfoldedState.pair state value]? = some (.take action)) ∧
    (∀ (state : S) (action : A), guarantee.projectedPolicy[state]? = some action ↔
      ∃ value : R, guarantee.policy[UnfoldedState.pair state value]? = some (.take action) ∧
        ∀ (other : R) (otherAction : A),
          guarantee.policy[UnfoldedState.pair state other]? = some (.take otherAction) →
            (Number.keyOrder other value).isLE = true) ∧
    (∀ (state : S) (action : A), guarantee.projectedPolicy[state]? = some action →
      (model.actions state).contains action = true) ∧
    ∀ (state : S) (value other : R) (action : A),
      ¬(guarantee.policy[UnfoldedState.pair state value]? = some (.take action) ∧
        guarantee.policy[UnfoldedState.pair state other]? = some .loop) := by
  have built := (answer_eq_ok answered).1
  obtain ⟨remaining, lossEq⟩ := Unfolding.exists_remainingLoss_of_build built
  have product := Unfolding.isProduct_of_build wellFormed lossEq built
  simp only [← action?_eq_some_iff]
  refine ⟨fun _ => contains_projectedPolicy_iff ordered, ?_, ?_, ?_⟩
  · intro state action
    rw [projectedPolicy_eq_some_iff ordered]
    exact ⟨fun ⟨value, takes⟩ => ⟨value, takes.decided, takes.greatest⟩,
      fun ⟨value, decided, greatest⟩ => ⟨value, decided, greatest⟩⟩
  · intro state action projected
    obtain ⟨value, takes⟩ := exists_takesRichest_of_projectedPolicy ordered projected
    exact contains_of_action? product answered takes.decided
  · rintro state value other action ⟨decided, loops⟩
    rw [action?_eq_none_of_loop product answered loops] at decided
    cases decided

/-- A state in which one either waits or pays the way to one of two targets, both at a cost. -/
def waitOrPay : Model Nat Nat Rat :=
  ((Model.empty.addTransition 0 0 0 1 (-2)).addTransition 0 1 1 (1 / 2) (-3)).addTransition
    0 1 2 (1 / 2) (-3)

/-- How probable it is that `waitOrPay` comes to a target with at most three lost. -/
def payThree : Question Nat Rat :=
  ⟨0, {1, 2}, -3, 0⟩

/-- With one to lose nothing helps and the policy waits, with three to lose it pays; nobody has more
to lose. -/
theorem action?_payThree {guarantee : Guarantee Nat Nat Rat}
    (wellFormed : guarantee.unfolding.model.WellFormed)
    (answered : answer waitOrPay LinearProgram.solve payThree ⟨.threshold, 100, 0⟩ =
      .ok guarantee) :
    guarantee.action? 0 (-2) = some 0 ∧ guarantee.action? 0 0 = some 1 ∧
      ∀ label, guarantee.unfolding.model.contains label = true → ∀ value ∈ label.value?,
        value ≤ 0 := by
  have facts : ∀ guarantee ∈ (answer waitOrPay LinearProgram.solve payThree
      ⟨.threshold, 100, 0⟩).toOption,
      let decided (label : UnfoldedState Nat Rat) : Option Nat :=
        (if guarantee.unfolding.model.contains label ∧
            succeeds guarantee.values payThree.threshold label then
          guarantee.unfolding.model.bestAction? guarantee.unfolding.targets guarantee.values label
        else none).bind UnfoldedAction.action?
      decided (.pair 0 (-2)) = some 0 ∧ decided (.pair 0 0) = some 1 ∧
        ∀ label ∈ guarantee.unfolding.model.states.toList, ∀ value ∈ label.value?, value ≤ 0 := by
    decide +kernel
  obtain ⟨waits, pays, listed⟩ := facts guarantee (mem_toOption_of_eq_ok answered)
  simp only [action?, getElem?_policy wellFormed answered]
  refine ⟨waits, pays, fun label known => ?_⟩
  obtain ⟨stored, member, same⟩ := wellFormed.listed label known
  rw [← Std.LawfulEqOrd.eq_of_compare same]
  exact listed stored member

/-- The policy of `payThree` waits with less to lose and pays with more, and the projected policy
pays.  It does nothing in the targets, where there is no action that stays. -/
theorem projectedPolicy_takes_richest_payThree :
    waitOrPay.WellFormed ∧ ∃ guarantee,
      answer waitOrPay LinearProgram.solve payThree ⟨.threshold, 100, 0⟩ = .ok guarantee ∧
      OrderedValues guarantee.decisions ∧
      guarantee.action? 0 (-2) = some 0 ∧ guarantee.action? 0 0 = some 1 ∧
      guarantee.projectedPolicy[0]? = some 1 ∧ (waitOrPay.actions 0).contains 1 = true ∧
      ¬guarantee.projectedPolicy.contains 1 = true := by
  have wellFormed : waitOrPay.WellFormed :=
    ((Model.wellFormed_empty.addTransition 0 0 0 1 (-2)).addTransition
      0 1 1 (1 / 2) (-3)).addTransition 0 1 2 (1 / 2) (-3)
  obtain ⟨guarantee, answered⟩ := exists_eq_ok (show (answer waitOrPay LinearProgram.solve payThree
    ⟨.threshold, 100, 0⟩).isOk = true by decide +kernel)
  have built := (answer_eq_ok answered).1
  obtain ⟨_, lossEq⟩ := Unfolding.exists_remainingLoss_of_build built
  have product := Unfolding.isProduct_of_build wellFormed lossEq built
  obtain ⟨waits, pays, noneAbove⟩ := action?_payThree product.wellFormed answered
  have ordered := orderedValues_exact guarantee.decisions
  obtain ⟨-, richest, legal, -⟩ := projectedPolicy_takes_richest wellFormed answered ordered
  have projected : guarantee.projectedPolicy[0]? = some 1 := by
    refine (richest 0 1).mpr ⟨0, action?_eq_some_iff.mp pays, fun other action listed => ?_⟩
    have known := (isBest_of_policy product.wellFormed answered listed).1
    exact (isLE_keyOrder_iff other 0).mpr (noneAbove _ known other rfl)
  refine ⟨wellFormed, guarantee, answered, ordered, waits, pays, projected, legal 0 1 projected, ?_⟩
  rw [TreeMap.contains_eq_isSome_getElem?, Option.isSome_iff_exists]
  rintro ⟨action, stays⟩
  have noActions : (waitOrPay.actions 1).isEmpty = true := by decide +kernel
  have offered := legal 1 action stays
  rw [TreeMap.contains_of_isEmpty noActions] at offered
  cases offered

end Answered

end Guarantee

end MarkovDecision
