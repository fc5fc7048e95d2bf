import MarkovDecision.LinearProgram.Components
import MarkovDecision.Proofs.Guarantee.Answer
import MarkovDecision.Proofs.Reachability.Connected
import MarkovDecision.Proofs.Unfolding.Budget

/-!
# Certain success

The targets of the unfolded model are worth one, whatever the solver answers.  They are within
the budget as far as they are found along a transition, because the rule for pairs is asked then.
It is not asked for the first pair: a source that is a target counts as a success even if its
value starts below the bound.
-/

namespace MarkovDecision

open Std (TreeMap TreeSet TransOrd LawfulEqOrd)

namespace Guarantee

variable {S A R : Type} [Ord S] [TransOrd S] [LawfulEqOrd S] [Ord A] [TransOrd A] [Number R]
  [LawfulNumber R] {model : Model S A R} {question : Question S R} {settings : UnfoldSettings R}

/-- The targets of an unfolding are within the budget if and only if a source that is a target
starts within it; if it does not, the first pair is the only target.  Whatever the solver, an
answer takes every target of the unfolding for a certain success. -/
theorem targets_within_iff (wellFormed : model.WellFormed) {unfolding : Unfolding S A R}
    (built : Unfolding.build model question.source question.targets question.bound settings =
      .ok unfolding) :
    ((∀ state value, unfolding.targets.contains (.pair state value) = true →
        question.bound ≤ value) ↔
      (question.targets.contains question.source = true →
        question.bound ≤ settings.initialValue)) ∧
    (∀ state value, unfolding.targets.contains (.pair state value) = true →
      question.bound ≤ value ∨ compare unfolding.initial (.pair state value) = .eq) ∧
    ∀ (solver : Solver R) guarantee, answer model solver question settings = .ok guarantee →
      guarantee.unfolding = unfolding ∧
        ∀ label, unfolding.targets.contains label = true → guarantee.values[label]? = some 1 := by
  obtain ⟨remaining, lossEq⟩ := Unfolding.exists_remainingLoss_of_build built
  have product := Unfolding.isProduct_of_build wellFormed lossEq built
  have withinOrFirst (state : S) (value : R)
      (isListed : unfolding.targets.contains (.pair state value) = true) :
      question.bound ≤ value ∨ compare unfolding.initial (.pair state value) = .eq := by
    obtain ⟨_, _, sameNode, isKept, isTarget⟩ := (product.targets_iff _).mp isListed
    cases sameNode
    by_cases sourceTarget : question.targets.contains question.source = true
    · rw [product.initial_eq]
      exact Or.inr (isKept.same_start sourceTarget)
    · exact Or.inl (isKept.bound_le wellFormed lossEq sourceTarget isTarget)
  refine ⟨⟨?_, ?_⟩, withinOrFirst, ?_⟩
  · intro allWithin sourceTarget
    exact allWithin _ _ ((product.contains_targets_iff Unfolding.KeptPair.start).mpr sourceTarget)
  · intro startsWithin state value isListed
    rcases withinOrFirst state value isListed with within | isFirst
    · exact within
    · rw [product.initial_eq, UnfoldedState.compare_pair_eq_iff] at isFirst
      obtain ⟨_, _, sameNode, -, isTarget⟩ := (product.targets_iff _).mp isListed
      cases sameNode
      rw [← TreeSet.contains_congr isFirst.1] at isTarget
      exact (LawfulNumber.le_iff_of_sameKey _ isFirst.2).mp (startsWithin isTarget)
  · intro solver guarantee answered
    obtain ⟨guaranteeBuilt, reach, reached, valuesEq, -⟩ := answer_eq_ok answered
    rw [built] at guaranteeBuilt
    cases guaranteeBuilt
    refine ⟨rfl, fun label isListed => ?_⟩
    obtain ⟨state, value, rfl, isKept, -⟩ := (product.targets_iff label).mp isListed
    rw [valuesEq]
    exact product.wellFormed.reach_of_target reached isListed
      ((product.contains_iff _).mpr (Or.inr ⟨state, value, rfl, isKept⟩))

/-- A state that stays where it is for ever. -/
def stayPut : Model Nat Nat Rat :=
  Model.empty.addTransition 0 0 0 1 0

/-- How probable it is to gain five in `stayPut`, where the source is the target. -/
def gainFive : Question Nat Rat :=
  ⟨0, {0}, 5, 0⟩

/-- The theorem at work on a source that is a target and starts five below the bound: it is taken
for a certain success. -/
theorem targets_within_iff_gainFive :
    ∃ guarantee, answer stayPut LinearProgram.solve gainFive ⟨.shortestPath, 100, 0⟩ =
        .ok guarantee ∧
      guarantee.unfolding.targets.contains (.pair 0 0) = true ∧ ¬gainFive.bound ≤ 0 ∧
      guarantee.values[UnfoldedState.pair 0 (0 : Rat)]? = some 1 := by
  obtain ⟨guarantee, answered⟩ := exists_eq_ok (show (answer stayPut LinearProgram.solve gainFive
    ⟨.shortestPath, 100, 0⟩).isOk = true by decide +kernel)
  have wellFormed : stayPut.WellFormed := Model.wellFormed_empty.addTransition 0 0 0 1 0
  obtain ⟨-, -, certain⟩ := targets_within_iff wellFormed (answer_eq_ok answered).1
  have isListed : ∀ guarantee ∈ (answer stayPut LinearProgram.solve gainFive
      ⟨.shortestPath, 100, 0⟩).toOption, guarantee.unfolding.targets.contains (.pair 0 0) = true := by
    decide +kernel
  have firstListed := isListed guarantee (mem_toOption_of_eq_ok answered)
  exact ⟨guarantee, answered, firstListed, by decide,
    (certain LinearProgram.solve guarantee answered).2 _ firstListed⟩

end Guarantee

end MarkovDecision
