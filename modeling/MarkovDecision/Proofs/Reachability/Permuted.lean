import MarkovDecision.Proofs.Guarantee.Answer
import MarkovDecision.Proofs.Model.Permuted
import MarkovDecision.Proofs.Reachability.Classification
import MarkovDecision.Proofs.Reachability.Renamed

/-!
# Reachability under the same chances

Models with the same states and the same probabilities settle the same states and pose the same
linear program, whose variables follow the order of the states and whose constraints follow the
order of the actions.  So a solver that is a function of the program finds the same values, and the
greedy policy for them takes the same actions.
-/

namespace MarkovDecision

open Std (TreeMap TreeSet TransOrd LawfulEqOrd)

variable {S A R : Type} [Ord S] [Ord A] [Number R]

namespace Model.SameChances

variable [TransOrd S] [TransOrd A] [LawfulEqOrd S] {first second : Model S A R}
  (same : first.SameChances second) {targets others : LabelSet S}
  (sameTargets : targets.Equiv others)
include same sameTargets

theorem classify_equiv : (first.classify targets).Equiv (second.classify others) := by
  apply TreeMap.Equiv.of_forall_constGet?_eq
  intro state
  rw [same.wellFormed.getElem?_classify, same.otherWellFormed.getElem?_classify, same.contains_eq,
    classification, classification, sameTargets.contains_eq,
    (same.comingTo_equiv sameTargets).contains_eq]

theorem counterparts : first.Counterparts id second targets others where
  sameTargets _ := sameTargets.contains_eq.symm
  classes := tableImage_of_forall_eq fun _ => (same.classify_equiv sameTargets).getElem?_eq
  actions := same.actions_image

variable [LawfulEqOrd A]

theorem reach_eq (solver : Solver R) : first.reach solver targets = second.reach solver others := by
  have sameClasses := (same.classify_equiv sameTargets).toList_eq
  have counterparts := same.counterparts sameTargets
  rw [reach, reach, counterparts.reachProgram_eq isRenaming_id]
  simp only [settledValues, unsettledStates, sameClasses]

theorem greedyPolicy_equiv (values : ValueTable S R) :
    (first.greedyPolicy targets values).Equiv (second.greedyPolicy others values) := by
  have counterparts := same.counterparts sameTargets
  apply TreeMap.Equiv.of_forall_constGet?_eq
  intro state
  have sameBest : second.bestAction? others values state = first.bestAction? targets values state :=
    counterparts.bestAction?_eq isRenaming_id (tableImage_of_forall_eq fun _ => rfl) state
  rw [same.wellFormed.getElem?_greedyPolicy, same.otherWellFormed.getElem?_greedyPolicy,
    same.contains_eq, sameBest]

/-- The probabilities and the policy for them are the same, or neither model has any. -/
theorem reachPolicy_endAlike (solver : Solver R) :
    EndAlike (fun answer other => answer.1.Equiv other.1 ∧ answer.2 = other.2)
      (first.reachPolicy solver targets) (second.reachPolicy solver others) := by
  rw [reachPolicy, reachPolicy, same.reach_eq sameTargets]
  cases second.reach solver others with
  | error error => exact .error error
  | ok reach => exact .ok ⟨same.greedyPolicy_equiv sameTargets reach.values, rfl⟩

end Model.SameChances

end MarkovDecision
