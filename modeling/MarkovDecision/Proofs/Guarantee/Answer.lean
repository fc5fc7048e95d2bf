import MarkovDecision.Guarantee
import MarkovDecision.Proofs.Unfolding.Product

/-!
# What an answer consists of

An answer to the percentile question holds the unfolding, the values of reachability in the
unfolded model, and the greedy policy for them where it succeeds often enough.  So the policy
decides in kept pairs only.
-/

namespace MarkovDecision

open Std (TreeMap TreeSet TransOrd)

variable {S A R : Type} [Ord S] [Ord A] [Number R]

theorem Model.bestAction?_congr [TransOrd S] (model : Model S A R) (targets : LabelSet S)
    (values : ValueTable S R) {first second : S} (same : compare first second = .eq) :
    model.bestAction? targets values first = model.bestAction? targets values second := by
  have sameTarget : targets.contains first = targets.contains second :=
    TreeSet.contains_congr same
  rw [bestAction?, bestAction?, sameTarget, model.actions_congr same]

theorem Model.contains_of_bestAction? [TransOrd A] {model : Model S A R} {targets : LabelSet S}
    {values : ValueTable S R} {state : S} {action : A}
    (isBest : model.bestAction? targets values state = some action) :
    (model.actions state).contains action = true := by
  unfold bestAction? at isBest
  split at isBest
  · exact TreeMap.contains_minKey? isBest
  · obtain ⟨entry, found, rfl⟩ := Option.map_eq_some_iff.mp isBest
    obtain ⟨offer, offered, rfl⟩ := List.mem_map.mp (mem_of_firstBest? found)
    exact ActionTable.contains_of_mem offered

/-- What a greedy policy records for one state. -/
def Model.chooseAt (model : Model S A R) (targets : LabelSet S) (values : ValueTable S R)
    (policy : Policy S A) (state : S) : Policy S A :=
  match model.bestAction? targets values state with
  | some action => policy.insert state action
  | none => policy

theorem Model.WellFormed.getElem?_greedyPolicy [TransOrd S] {model : Model S A R}
    (wellFormed : model.WellFormed) (targets : LabelSet S) (values : ValueTable S R) (state : S) :
    (model.greedyPolicy targets values)[state]? =
      if model.contains state then model.bestAction? targets values state else none := by
  have folded : model.greedyPolicy targets values =
      model.states.toList.foldl (model.chooseAt targets values) ∅ := rfl
  rw [folded]
  exact wellFormed.getElem?_foldl_record (model.bestAction?_congr targets values) state

namespace Guarantee

variable {model : Model S A R} {solver : Solver R} {question : Question S R}
  {settings : UnfoldSettings R} {guarantee : Guarantee S A R}

/-- A question that is answered has its unfolding, and the values are those of reachability. -/
theorem answer_eq_ok (answered : answer model solver question settings = .ok guarantee) :
    Unfolding.build model question.source question.targets question.bound settings =
        .ok guarantee.unfolding ∧
      ∃ reach, guarantee.unfolding.model.reach solver guarantee.unfolding.targets = .ok reach ∧
        guarantee.values = reach.values ∧
        guarantee.policy = (guarantee.unfolding.model.greedyPolicy guarantee.unfolding.targets
          reach.values).filter fun state _ => succeeds reach.values question.threshold state := by
  unfold answer at answered
  split at answered
  · cases answered
  · split at answered
    · cases answered
    · split at answered
      · cases answered
      · rename_i unfolding built
        split at answered
        · cases answered
        · rename_i policy values found
          cases answered
          unfold Model.reachPolicy at found
          cases reached : unfolding.model.reach solver unfolding.targets with
          | error error =>
              rw [reached] at found
              cases found
          | ok reach =>
              rw [reached] at found
              cases found
              exact ⟨built, reach, rfl, rfl, rfl⟩

section Policy

variable [TransOrd S] [LawfulNumber R] (wellFormed : guarantee.unfolding.model.WellFormed)
  (answered : answer model solver question settings = .ok guarantee)

theorem succeeds_congr (values : ValueTable (UnfoldedState S R) R) (threshold : R)
    {first second : UnfoldedState S R} (same : compare first second = .eq) :
    succeeds values threshold first = succeeds values threshold second := by
  rw [succeeds, succeeds, TreeMap.getD_congr same]

include wellFormed answered

theorem getElem?_policy (label : UnfoldedState S R) :
    guarantee.policy[label]? =
      if guarantee.unfolding.model.contains label ∧
          succeeds guarantee.values question.threshold label then
        guarantee.unfolding.model.bestAction? guarantee.unfolding.targets guarantee.values label
      else none := by
  obtain ⟨-, reach, -, valuesEq, policyEq⟩ := answer_eq_ok answered
  rw [← valuesEq] at policyEq
  rw [policyEq, getElem?_filter_keys (succeeds_congr guarantee.values question.threshold),
    wellFormed.getElem?_greedyPolicy]
  split_ifs <;> tauto

/-- What the policy does is what a greedy policy does in a node of the unfolded model. -/
theorem isBest_of_policy {label : UnfoldedState S R} {entry : UnfoldedAction A}
    (listed : guarantee.policy[label]? = some entry) :
    guarantee.unfolding.model.contains label = true ∧
      guarantee.unfolding.model.bestAction? guarantee.unfolding.targets guarantee.values label =
        some entry := by
  rw [getElem?_policy wellFormed answered, Option.ite_none_right_eq_some] at listed
  exact ⟨listed.1.1, listed.2⟩

end Policy

theorem action?_eq_some_iff {state : S} {value : R} {action : A} :
    guarantee.action? state value = some action ↔
      guarantee.policy[UnfoldedState.pair state value]? = some (.take action) := by
  rw [action?, Option.bind_eq_some_iff]
  constructor
  · rintro ⟨entry, listed, actionEq⟩
    cases entry with
    | loop => cases actionEq
    | take other =>
        cases actionEq
        exact listed
  · exact fun listed => ⟨_, listed, rfl⟩

section Kept

variable [TransOrd S] [LawfulNumber R] {keep : S → R → Bool}
  (product : Unfolding.IsProduct model question.targets keep question.source
    settings.initialValue guarantee.unfolding)
  (answered : answer model solver question settings = .ok guarantee) {state : S} {value : R}
include product answered

theorem keptPair_of_policy {entry : UnfoldedAction A}
    (listed : guarantee.policy[UnfoldedState.pair state value]? = some entry) :
    Unfolding.KeptPair model question.targets keep question.source settings.initialValue state
      value := by
  obtain ⟨known, -⟩ := isBest_of_policy product.wellFormed answered listed
  obtain ⟨_, _, sameNode, isKept⟩ := ((product.contains_iff _).mp known).resolve_left (by simp)
  cases sameNode
  exact isKept

theorem keptPair_of_action? {action : A} (decided : guarantee.action? state value = some action) :
    Unfolding.KeptPair model question.targets keep question.source settings.initialValue state
      value :=
  keptPair_of_policy product answered (action?_eq_some_iff.mp decided)

variable [TransOrd A]

theorem exists_take_of_policy {entry : UnfoldedAction A}
    (noTarget : ¬question.targets.contains state = true)
    (listed : guarantee.policy[UnfoldedState.pair state value]? = some entry) :
    ∃ action, entry = .take action ∧ (model.actions state).contains action = true := by
  have isKept := keptPair_of_policy product answered listed
  obtain ⟨-, isBest⟩ := isBest_of_policy product.wellFormed answered listed
  exact (product.stepActions isKept noTarget entry).mp (Model.contains_of_bestAction? isBest)

theorem loops_of_policy {entry : UnfoldedAction A}
    (isTarget : question.targets.contains state = true)
    (listed : guarantee.policy[UnfoldedState.pair state value]? = some entry) :
    Unfolding.loops model state entry := by
  have isKept := keptPair_of_policy product answered listed
  obtain ⟨-, isBest⟩ := isBest_of_policy product.wellFormed answered listed
  exact (product.targetActions isKept isTarget entry).mp (Model.contains_of_bestAction? isBest)

/-- The policy takes nothing but actions that the state has, in targets as elsewhere. -/
theorem contains_of_action? {action : A} (decided : guarantee.action? state value = some action) :
    (model.actions state).contains action = true := by
  have listed := action?_eq_some_iff.mp decided
  by_cases isTarget : question.targets.contains state = true
  · have mayStay : Unfolding.stays model state action = true :=
      loops_of_policy product answered isTarget listed
    rw [Unfolding.stays, Option.any_eq_true] at mayStay
    obtain ⟨distribution, offered, -⟩ := mayStay
    rw [TreeMap.contains_eq_isSome_getElem?, offered]
    rfl
  · obtain ⟨other, sameEntry, offered⟩ := exists_take_of_policy product answered isTarget listed
    cases sameEntry
    exact offered

end Kept

end Guarantee

end MarkovDecision
