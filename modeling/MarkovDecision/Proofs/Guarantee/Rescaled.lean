import MarkovDecision.Proofs.Guarantee.Projected
import MarkovDecision.Proofs.Reachability.Renamed
import MarkovDecision.Proofs.Unfolding.Rescaled

/-!
# Only the distance between initial value and bound matters

A percentile question that is moved along, its bound together with the initial value, has the same
answer: the unfolded model is the image of the one before, reachability poses the same linear
program in both, and the projection to the states of the model only compares values with each other.
The same holds when bound, initial value and all weights are stretched by a positive factor.
-/

namespace MarkovDecision

open Std (TreeMap TransOrd LawfulEqOrd)

variable {S A : Type} [Ord S] [Ord A]

/-- The model with changed weights. -/
def Model.reweigh (change : Rat → Rat) (model : Model S A Rat) : Model S A Rat :=
  { model with nodes := model.nodes.map fun _ node => node.renamed id change }

omit [Ord A] in
theorem Model.isImage_reweigh [TransOrd S] [LawfulEqOrd S] (change : Rat → Rat)
    (model : Model S A Rat) : model.IsImage id change (model.reweigh change) where
  states_eq := (List.map_id _).symm
  nodes := tableImage_of_getElem?_eq fun _ => TreeMap.getElem?_map
  transitionCount_eq := rfl

/-- The question with its bound moved. -/
def Question.moved (move : Rat → Rat) (question : Question S Rat) : Question S Rat :=
  { question with bound := move question.bound }

/-- The settings with their initial value moved. -/
def UnfoldSettings.moved (move : Rat → Rat) (settings : UnfoldSettings Rat) : UnfoldSettings Rat :=
  { settings with initialValue := move settings.initialValue }

namespace Guarantee

/-- An answer has the states of another with their values moved: the same actions and the same
probabilities of success. -/
structure IsImage (move change : Rat → Rat) (guarantee other : Guarantee S A Rat) : Prop where
  policy : TableImage (UnfoldedState.moved move) Eq guarantee.policy other.policy
  values : TableImage (UnfoldedState.moved move) Eq guarantee.values other.values
  unfolding : guarantee.unfolding.IsImage move change other.unfolding

/-- Two answers have the same probability of success and the same policy for the states of the
model. -/
structure SameChoice (guarantee other : Guarantee S A Rat) : Prop where
  initialProbability_eq : guarantee.initialProbability = other.initialProbability
  projectedPolicy_equiv : guarantee.projectedPolicy.Equiv other.projectedPolicy

section Projection

/-- The best decisions of two answers are the same, with moved values. -/
def BestMoved (move : Rat → Rat) (best other : TreeMap S (Rat × A)) : Prop :=
  TableImage id (fun (entry other : Rat × A) => (move entry.1, entry.2) = other) best other

variable [TransOrd S] {move change : Rat → Rat} (rescales : Rescales move change)
include rescales

omit [Ord A] in
theorem BestMoved.takeRicher {best other : TreeMap S (Rat × A)} (same : BestMoved move best other)
    (decision : S × Rat × A) : BestMoved move (takeRicher best decision)
      (takeRicher other (decision.1, move decision.2.1, decision.2.2)) := by
  have found : other[decision.1]? =
      best[decision.1]?.map fun entry => (move entry.1, entry.2) := same.getElem?_eq decision.1
  unfold Guarantee.takeRicher
  dsimp only
  rw [found]
  cases best[decision.1]? with
  | none => exact same.insert isRenaming_id decision.1 rfl
  | some entry =>
      simp only [Option.map_some, rescales.move_lt_iff]
      split
      · exact same.insert isRenaming_id decision.1 rfl
      · exact same

variable [LawfulEqOrd S] {guarantee other : Guarantee S A Rat}
  (isImage : guarantee.IsImage move change other)
include isImage

/-- The same decisions are made, with moved values. -/
theorem IsImage.decisions_eq : other.decisions =
    guarantee.decisions.map fun decision => (decision.1, move decision.2.1, decision.2.2) := by
  rw [decisions, decisions, isImage.policy.toList_same rescales.isRenaming_moved,
    List.filterMap_map, List.map_filterMap]
  congr 1
  funext entry
  obtain ⟨label, action⟩ := entry
  cases label <;> cases action <;> rfl

theorem IsImage.projectedPolicy_equiv :
    guarantee.projectedPolicy.Equiv other.projectedPolicy := by
  have sameBest : BestMoved move (guarantee.decisions.foldl Guarantee.takeRicher ∅)
      (other.decisions.foldl Guarantee.takeRicher ∅) := by
    rw [isImage.decisions_eq rescales, List.foldl_map]
    exact List.foldl_rel tableImage_empty fun decision _ best other same =>
      same.takeRicher rescales decision
  apply TreeMap.Equiv.of_forall_constGet?_eq
  intro state
  have sameEntry : (other.decisions.foldl Guarantee.takeRicher ∅)[state]? =
      (guarantee.decisions.foldl Guarantee.takeRicher ∅)[state]?.map fun entry =>
        (move entry.1, entry.2) := sameBest.getElem?_eq state
  rw [projectedPolicy_eq, projectedPolicy_eq, TreeMap.getElem?_map, TreeMap.getElem?_map,
    sameEntry, Option.map_map]
  rfl

theorem IsImage.sameChoice : guarantee.SameChoice other where
  initialProbability_eq := by
    rw [initialProbability, initialProbability, isImage.unfolding.initial_eq,
      TreeMap.getD_eq_getD_getElem?, TreeMap.getD_eq_getD_getElem?, isImage.values.getElem?_same]
  projectedPolicy_equiv := isImage.projectedPolicy_equiv rescales

end Projection

variable [TransOrd S] [LawfulEqOrd S] {move change : Rat → Rat} (rescales : Rescales move change)
include rescales

variable [TransOrd A] [LawfulEqOrd A] {first second : Model S A Rat}
  (sameModel : first.IsImage id change second)
include sameModel

theorem answer_endAlike_rescaled (solver : Solver Rat) (question : Question S Rat)
    (settings : UnfoldSettings Rat) :
    EndAlike (IsImage move change) (answer first solver question settings)
      (answer second solver (question.moved move) (settings.moved move)) := by
  have isRenaming := rescales.isRenaming_moved (S := S)
  have sameUnfoldings := Unfolding.build_endAlike_rescaled rescales sameModel question.source
    question.targets question.bound settings
  obtain ⟨source, targets, bound, threshold⟩ := question
  have isBound (bound : Rat) : ¬(!decide (bound ≤ bound)) = true := by simp
  unfold answer Question.moved UnfoldSettings.moved
  dsimp only at sameUnfoldings ⊢
  by_cases outside : (!(decide (0 ≤ threshold) && decide (threshold ≤ 1))) = true
  · rw [if_pos outside, if_pos outside]
    exact .error _
  · rw [if_neg outside, if_neg outside, if_neg (isBound bound), if_neg (isBound (move bound))]
    generalize Unfolding.build first source targets bound settings = built at sameUnfoldings ⊢
    generalize Unfolding.build second source targets (move bound)
      { settings with initialValue := move settings.initialValue } = otherBuilt
      at sameUnfoldings ⊢
    cases sameUnfoldings with
    | error error => exact .error _
    | @ok unfolding other isImage =>
        have samePolicies := isImage.model.reachPolicy_endAlike isRenaming isImage.targets solver
        dsimp only
        generalize unfolding.model.reachPolicy solver unfolding.targets = found
          at samePolicies ⊢
        generalize other.model.reachPolicy solver other.targets = otherFound at samePolicies ⊢
        cases samePolicies with
        | error error => exact .error _
        | @ok answer otherAnswer same =>
            refine .ok ⟨same.1.filter_same ?_, same.2, isImage⟩
            intro label _
            simp only [succeeds, TreeMap.getD_eq_getD_getElem?, same.2.getElem?_same]

end Guarantee

/-- Two models, in which weights are counted differently, unfold alike when bound and initial value
are moved, and the answers to percentile questions make the same choice. -/
structure AnswersAlike (move change : Rat → Rat) (first second : Model S A Rat) : Prop where
  build_endAlike : ∀ source targets bound settings,
    EndAlike (Unfolding.IsImage move change)
      (Unfolding.build first source targets bound settings)
      (Unfolding.build second source targets (move bound) (settings.moved move))
  answer_endAlike : ∀ solver question settings,
    EndAlike Guarantee.SameChoice (Guarantee.answer first solver question settings)
      (Guarantee.answer second solver (question.moved move) (settings.moved move))

variable [TransOrd S] [LawfulEqOrd S] [TransOrd A] [LawfulEqOrd A]

theorem Rescales.answersAlike {move change : Rat → Rat} (rescales : Rescales move change)
    {first second : Model S A Rat} (sameModel : first.IsImage id change second) :
    AnswersAlike move change first second where
  build_endAlike := Unfolding.build_endAlike_rescaled rescales sameModel
  answer_endAlike solver question settings :=
    (Guarantee.answer_endAlike_rescaled rescales sameModel solver question settings).imp
      fun isImage => isImage.sameChoice rescales

/-- Only the distance between initial value and bound matters, and only in proportion to the
weights. -/
theorem Model.answersAlike_rescaled (model : Model S A Rat) :
    (∀ shift, AnswersAlike (· + shift) id model model) ∧
      ∀ scale, 0 < scale → AnswersAlike (scale * ·) (scale * ·) model (model.reweigh (scale * ·)) :=
  ⟨fun shift => (rescales_shift shift).answersAlike model.isImage_id,
    fun _ isPositive => (rescales_stretch isPositive).answersAlike (model.isImage_reweigh _)⟩

/-- To try again with three to lose is the same from zero as from five, and with six to lose at
twice the cost. -/
theorem Model.answersAlike_rescaled_tryAgain :
    (∃ unfolding other,
      Unfolding.build Unfolding.tryAgain 0 {1} (-3) ⟨.shortestPath, 100, 0⟩ = .ok unfolding ∧
        Unfolding.build Unfolding.tryAgain 0 {1} 2 ⟨.shortestPath, 100, 5⟩ = .ok other ∧
        unfolding.IsImage (· + 5) id other) ∧
      (Unfolding.tryAgain.reweigh (2 * ·)).weight? 0 0 (some 1) = some (-2) ∧
      AnswersAlike (2 * ·) (2 * ·) Unfolding.tryAgain (Unfolding.tryAgain.reweigh (2 * ·)) := by
  obtain ⟨shifted, stretched⟩ := Unfolding.tryAgain.answersAlike_rescaled
  refine ⟨?_, by decide +kernel, stretched 2 (by decide)⟩
  have succeeds : (Unfolding.build Unfolding.tryAgain 0 {1} (-3) ⟨.shortestPath, 100, 0⟩).isOk := by
    decide +kernel
  have otherSucceeds :
      (Unfolding.build Unfolding.tryAgain 0 {1} 2 ⟨.shortestPath, 100, 5⟩).isOk := by
    decide +kernel
  obtain ⟨unfolding, built⟩ := exists_eq_ok succeeds
  obtain ⟨other, otherBuilt⟩ := exists_eq_ok otherSucceeds
  have alike := (shifted 5).build_endAlike 0 {1} (-3) ⟨.shortestPath, 100, 0⟩
  have boundEq : (-3 : Rat) + 5 = 2 := by norm_num
  dsimp only [UnfoldSettings.moved] at alike
  rw [boundEq, zero_add, built, otherBuilt] at alike
  cases alike with
  | ok isImage => exact ⟨unfolding, other, built, otherBuilt, isImage⟩

end MarkovDecision
