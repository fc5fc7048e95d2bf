import MarkovDecision.Proofs.Learning.Sweeps
import MarkovDecision.Proofs.Reachability.Permuted
import MarkovDecision.Proofs.Unfolding.Permuted

/-!
# The order of construction does not matter

Sweeps of value iteration look at the weights of the transitions to each next state, so that alike
models are worth the same after every number of them.  The percentile question is answered by
reachability in the unfolded models, which have the same chances.  Together with what holds of the
model itself this shows that no result tells models apart that the same calls build in different
orders, as long as no two of the calls add to the same edge.
-/

namespace MarkovDecision

open Std (TreeMap TransOrd LawfulEqOrd)

variable {S A : Type} [Ord S] [TransOrd S] [LawfulEqOrd S] [Ord A] [TransOrd A] [LawfulEqOrd A]
  {first second : Model S A Rat}

section Sweeps

variable {discount : Rat} {values others : ValueTable S Rat}

omit [LawfulEqOrd S] [TransOrd A] [LawfulEqOrd A] in
theorem Model.Alike.lookahead_eq (alike : first.Alike second) (same : values.Equiv others) :
    first.lookahead discount values = second.lookahead discount others := by
  funext state action distribution
  simp only [lookahead, alike.weight?_eq, same.getD_eq]

theorem Model.Alike.improved_eq (alike : first.Alike second) (same : values.Equiv others)
    (state : S) :
    first.improved discount values state = second.improved discount others state := by
  have sameKeys := alike.sameChances.keys_actions state
  have samePromises : (first.actions state).toList.map (fun offer =>
        (offer.1, second.lookahead discount others state offer.1 offer.2)) =
      (second.actions state).toList.map fun offer =>
        (offer.1, second.lookahead discount others state offer.1 offer.2) := by
    apply alike.sameChances.map_offers
    intro action distribution other sameEntries
    rw [lookahead, lookahead, sameEntries]
  rw [improved, improved, ← TreeMap.isEmpty_keys, ← TreeMap.isEmpty_keys, sameKeys,
    alike.lookahead_eq same, same.getD_eq]
  dsimp only
  rw [samePromises]

omit [TransOrd A] [LawfulEqOrd A] in
theorem Model.Alike.record_equiv (alike : first.Alike second) {V : Type}
    {choose other : S → Option V} (sameChoice : ∀ state, choose state = other state) :
    (first.states.toList.foldl (record choose) ∅).Equiv
      (second.states.toList.foldl (record other) ∅) := by
  apply TreeMap.Equiv.of_forall_constGet?_eq
  intro state
  rw [alike.wellFormed.getElem?_recorded, alike.otherWellFormed.getElem?_recorded,
    alike.contains_eq, sameChoice]

theorem Model.Alike.valueIteration_equiv (alike : first.Alike second) (discount : Rat)
    (count : Nat) :
    (first.valueIteration discount count).1.Equiv (second.valueIteration discount count).1 ∧
      (first.valueIteration discount count).2.Equiv (second.valueIteration discount count).2 := by
  induction count with
  | zero =>
      have sameZeros (state : S) : (fun _ => some 0 : S → Option Rat) state = some 0 := rfl
      exact ⟨alike.record_equiv sameZeros, .rfl⟩
  | succ count ih =>
      rw [valueIteration_succ, valueIteration_succ, sweep_eq, sweep_eq]
      exact ⟨alike.record_equiv fun state => by rw [alike.improved_eq ih.1],
        alike.record_equiv fun state => by rw [alike.improved_eq ih.1]⟩

end Sweeps

/-- Two answers to a percentile question have the same policy and the same values, and their
unfoldings have the same nodes, targets and probabilities. -/
structure Guarantee.Same (first second : Guarantee S A Rat) : Prop where
  policy : first.policy.Equiv second.policy
  values : first.values = second.values
  unfolding : first.unfolding.SameChances second.unfolding

theorem Model.Alike.answer_endAlike (alike : first.Alike second) (solver : Solver Rat)
    (question : Question S Rat) (settings : UnfoldSettings Rat) :
    EndAlike Guarantee.Same (Guarantee.answer first solver question settings)
      (Guarantee.answer second solver question settings) := by
  have sameUnfoldings := Unfolding.build_endAlike alike question.source question.targets
    question.bound settings
  unfold Guarantee.answer
  split
  · exact .error _
  · split
    · exact .error _
    · generalize Unfolding.build first question.source question.targets question.bound settings =
        built at sameUnfoldings ⊢
      generalize Unfolding.build second question.source question.targets question.bound settings =
        otherBuilt at sameUnfoldings ⊢
      cases sameUnfoldings with
      | error error => exact .error _
      | @ok unfolding other same =>
          have samePolicies := same.model.reachPolicy_endAlike same.targets solver
          dsimp only
          generalize unfolding.model.reachPolicy solver unfolding.targets = found
            at samePolicies ⊢
          generalize other.model.reachPolicy solver other.targets = otherFound at samePolicies ⊢
          cases samePolicies with
          | error error => exact .error _
          | @ok answer otherAnswer sameAnswers =>
              obtain ⟨policy, values⟩ := answer
              obtain ⟨otherPolicy, otherValues⟩ := otherAnswer
              obtain ⟨samePolicy, rfl⟩ := sameAnswers
              exact .ok ⟨samePolicy.filter _, rfl, same⟩

namespace Model

/-- No result tells two models apart: their states and the edges between them are the same, and so
is what is computed from them. -/
structure Indistinguishable (first second : Model S A Rat) : Prop where
  contains_eq : ∀ state, first.contains state = second.contains state
  perm_states : first.states.toList.Perm second.states.toList
  entries_actions : ∀ state, (first.actions state).entries = (second.actions state).entries
  weight?_eq : ∀ state action target,
    first.weight? state action (some target) = second.weight? state action (some target)
  connected?_eq : ∀ source target, first.connected? source target = second.connected? source target
  comingTo_equiv : ∀ targets, (first.comingTo targets).Equiv (second.comingTo targets)
  classify_equiv : ∀ targets, (first.classify targets).Equiv (second.classify targets)
  reach_eq : ∀ solver targets, first.reach solver targets = second.reach solver targets
  reachPolicy_endAlike : ∀ solver targets,
    EndAlike (fun answer other => answer.1.Equiv other.1 ∧ answer.2 = other.2)
      (first.reachPolicy solver targets) (second.reachPolicy solver targets)
  distancesToTargets_endAlike : ∀ targets, EndAlike TreeMap.Equiv
    (first.distancesToTargets targets) (second.distancesToTargets targets)
  valueIteration_equiv : ∀ discount count,
    (first.valueIteration discount count).1.Equiv (second.valueIteration discount count).1 ∧
      (first.valueIteration discount count).2.Equiv (second.valueIteration discount count).2
  answer_endAlike : ∀ solver question settings, EndAlike Guarantee.Same
    (Guarantee.answer first solver question settings)
    (Guarantee.answer second solver question settings)

theorem Alike.indistinguishable (alike : first.Alike second) : first.Indistinguishable second where
  contains_eq := alike.contains_eq
  perm_states := alike.sameChances.perm_states
  entries_actions := alike.sameChances.entries_actions
  weight?_eq := alike.weight?_eq
  connected?_eq := alike.sameChances.connected?_eq
  comingTo_equiv _ := alike.sameChances.comingTo_equiv .rfl
  classify_equiv _ := alike.sameChances.classify_equiv .rfl
  reach_eq solver _ := alike.sameChances.reach_eq .rfl solver
  reachPolicy_endAlike solver _ := alike.sameChances.reachPolicy_endAlike .rfl solver
  distancesToTargets_endAlike := alike.distancesToTargets_endAlike
  valueIteration_equiv := alike.valueIteration_equiv
  answer_endAlike := alike.answer_endAlike

/-- No result depends on the order of the calls that build a model, when no two of them add to the
same edge. -/
theorem construct_indistinguishable {calls permuted : List (Call S A Rat)}
    (isPerm : calls.Perm permuted) (distinct : (calls.filterMap Call.triple?).Nodup) :
    (construct calls).Indistinguishable (construct permuted) :=
  (alike_construct isPerm distinct).indistinguishable

/-- The calls that build a state that tries again, with its target mentioned first. -/
def tryAgainCalls : List (Call Nat Nat Rat) :=
  [.state 1, .transition 0 0 1 (1 / 2) (-1), .transition 0 0 0 (1 / 2) (-2)]

/-- In reverse the calls number the states the other way round, but no result tells the
difference. -/
theorem construct_indistinguishable_tryAgain :
    tryAgainCalls.Perm tryAgainCalls.reverse ∧ (tryAgainCalls.filterMap Call.triple?).Nodup ∧
      (construct tryAgainCalls).states = #[1, 0] ∧
      (construct tryAgainCalls.reverse).states = #[0, 1] ∧
      (construct tryAgainCalls).Indistinguishable (construct tryAgainCalls.reverse) := by
  have isPerm : tryAgainCalls.Perm tryAgainCalls.reverse := tryAgainCalls.reverse_perm.symm
  have distinct : (tryAgainCalls.filterMap Call.triple?).Nodup := by decide
  exact ⟨isPerm, distinct, by decide, by decide, construct_indistinguishable isPerm distinct⟩

end Model

end MarkovDecision
