import MarkovDecision.Proofs.Model.Renamed
import MarkovDecision.Proofs.Reachability.Classification

/-!
# Reachability in images of models

A model and its image settle the same states and pose the same linear program: its variables follow
the order of the states and its constraints the order of the actions, and a renaming keeps both.
Weights play no part.  So a solver that is a function of the program finds the same probabilities,
and the greedy policy takes the same actions under the new names.
-/

namespace MarkovDecision

open Std (TreeMap TransOrd LawfulEqOrd)

variable {S T A R : Type} [Ord S] [Ord T] [TransOrd S] [TransOrd T] [LawfulEqOrd T]
  {rename : S → T} (isRenaming : IsRenaming rename)
include isRenaming

section Tables

variable [Number R]

theorem actionValue_image {distribution : Distribution S R} {other : Distribution T R}
    (sameEntries : TableImage rename Eq distribution other) {values : ValueTable S R}
    {others : ValueTable T R} (sameValues : TableImage rename Eq values others) :
    actionValue other others = actionValue distribution values := by
  rw [actionValue, actionValue, sameEntries.toList_same isRenaming, List.map_map]
  congr 2
  funext entry
  simp only [Function.comp_apply, TreeMap.getD_eq_getD_getElem?, sameValues.getElem?_same]

namespace Model

variable {classes : TreeMap S Classification} {otherClasses : TreeMap T Classification}
  (sameClasses : TableImage rename Eq classes otherClasses)
include sameClasses

theorem settledValues_image :
    TableImage rename Eq (settledValues classes : ValueTable S R) (settledValues otherClasses) := by
  rw [settledValues, settledValues, sameClasses.toList_same isRenaming, List.foldl_map]
  refine List.foldl_rel tableImage_empty ?_
  rintro ⟨state, classification⟩ _ values others sameValues
  cases classification with
  | target => exact sameValues.insert isRenaming state rfl
  | unreachable => exact sameValues.insert isRenaming state rfl
  | unknown => exact sameValues

omit [Number R] in
theorem unsettledStates_image :
    unsettledStates otherClasses = (unsettledStates classes).map rename := by
  rw [unsettledStates, unsettledStates, sameClasses.toList_same isRenaming, List.filterMap_map,
    List.map_filterMap]
  congr 1
  funext entry
  rw [Function.comp_apply]
  dsimp only
  split <;> rfl

theorem assembled_image (solution : Array R) :
    TableImage rename Eq (assembled classes solution).values
        (assembled otherClasses solution).values ∧
      (assembled otherClasses solution).unknowns = (assembled classes solution).unknowns := by
  rw [assembled, assembled, unsettledStates_image isRenaming sameClasses, List.zipIdx_map,
    List.foldl_map, List.length_map]
  refine ⟨List.foldl_rel (settledValues_image isRenaming sameClasses) ?_, rfl⟩
  intro entry _ values otherValues sameValues
  exact sameValues.insert isRenaming entry.1 rfl

omit sameClasses in
theorem actionConstraint?_image {settled : ValueTable S R} {others : ValueTable T R}
    (sameSettled : TableImage rename Eq settled others) {indices : TreeMap S Nat}
    {otherIndices : TreeMap T Nat} (sameIndices : TableImage rename Eq indices otherIndices)
    (own : Nat) {distribution : Distribution S R} {other : Distribution T R}
    (sameEntries : TableImage rename Eq distribution other) :
    actionConstraint? others otherIndices own other =
      actionConstraint? settled indices own distribution := by
  rw [actionConstraint?, actionConstraint?, sameEntries.toList_same isRenaming]
  simp only [List.foldl_map, TreeMap.getD_eq_getD_getElem?, sameSettled.getElem?_same,
    sameIndices.getElem?_same]

end Model

end Tables

namespace Model

/-- A model and its counterpart have the same targets, classify their states alike and offer the
same actions, under the new names. -/
structure Counterparts [Ord A] [Number R] (rename : S → T) (first : Model S A R)
    (second : Model T A R) (targets : LabelSet S) (others : LabelSet T) : Prop where
  sameTargets : SetImage rename targets others
  classes : TableImage rename Eq (first.classify targets) (second.classify others)
  actions : ∀ state, TableImage id (TableImage rename Eq) (first.actions state)
    (second.actions (rename state))

namespace Counterparts

variable [Ord A] [TransOrd A] [LawfulEqOrd A] [Number R] {first : Model S A R}
  {second : Model T A R} {targets : LabelSet S} {others : LabelSet T}
  (counterparts : first.Counterparts rename second targets others)
include counterparts

theorem reachProgram_eq : second.reachProgram (second.classify others) =
    first.reachProgram (first.classify targets) := by
  have sameSettled := settledValues_image (R := R) isRenaming counterparts.classes
  rw [reachProgram, reachProgram, unsettledStates_image isRenaming counterparts.classes,
    List.zipIdx_map, List.foldl_map, List.flatMap_map, List.length_map]
  have sameIndices : TableImage rename Eq
      ((unsettledStates (first.classify targets)).zipIdx.foldl
        (fun indices entry => indices.insert entry.1 entry.2) (∅ : TreeMap S Nat))
      ((unsettledStates (first.classify targets)).zipIdx.foldl
        (fun indices entry => indices.insert (rename entry.1) entry.2) (∅ : TreeMap T Nat)) :=
    List.foldl_rel tableImage_empty fun entry _ indices otherIndices same =>
      same.insert isRenaming entry.1 rfl
  congr 2
  funext entry
  have made := (counterparts.actions entry.1).map_toList isRenaming_id
    (fun offer => actionConstraint? _ _ entry.2 offer.2)
    (fun offer => actionConstraint? _ _ entry.2 offer.2)
    fun _ _ _ => actionConstraint?_image isRenaming sameSettled sameIndices entry.2
  have kept := congrArg (List.filterMap id) made
  rwa [List.filterMap_map, List.filterMap_map] at kept

/-- The probabilities are the same under the new names, or neither program has a solution. -/
theorem reach_endAlike (solver : Solver R) :
    EndAlike (fun reach other : Reach _ R => TableImage rename Eq reach.values other.values)
      (first.reach solver targets) (second.reach solver others) := by
  have sameSettled := settledValues_image (R := R) isRenaming counterparts.classes
  rw [reach, reach, counterparts.reachProgram_eq isRenaming,
    unsettledStates_image isRenaming counterparts.classes, List.isEmpty_map]
  dsimp only
  split
  · exact .ok sameSettled
  · cases solver (first.reachProgram (first.classify targets)) with
    | none => exact .error _
    | some solution =>
        have sameAnswer := assembled_image isRenaming counterparts.classes solution
        rw [assembled, assembled, unsettledStates_image isRenaming counterparts.classes]
          at sameAnswer
        exact .ok sameAnswer.1

theorem bestAction?_eq {values : ValueTable S R} {otherValues : ValueTable T R}
    (sameValues : TableImage rename Eq values otherValues) (state : S) :
    second.bestAction? others otherValues (rename state) =
      first.bestAction? targets values state := by
  have sameActions := counterparts.actions state
  have promised := sameActions.map_toList isRenaming_id
    (fun offer => (offer.1, actionValue offer.2 values))
    (fun offer => (offer.1, actionValue offer.2 otherValues))
    fun action _ _ sameEntries =>
      congrArg (Prod.mk action) (actionValue_image isRenaming sameEntries sameValues)
  have keysEq := sameActions.keys_eq isRenaming_id
  rw [List.map_id] at keysEq
  rw [bestAction?, bestAction?, counterparts.sameTargets, TreeMap.minKey?_eq_head?_keys,
    TreeMap.minKey?_eq_head?_keys, keysEq]
  dsimp only
  rw [promised]

end Counterparts

namespace IsImage

variable {change : R → R} {first : Model S A R} {second : Model T A R}
  (isImage : first.IsImage rename change second) {targets : LabelSet S} {others : LabelSet T}
  (sameTargets : SetImage rename targets others)
include isImage sameTargets

theorem classify : TableImage rename Eq (first.classify targets) (second.classify others) := by
  rw [Model.classify, Model.classify, isImage.states_eq, List.foldl_map]
  refine List.foldl_rel tableImage_empty ?_
  intro state _ classes otherClasses sameClasses
  refine sameClasses.insert isRenaming state ?_
  rw [sameTargets, isImage.comingTo isRenaming sameTargets]

variable [Ord A] [TransOrd A] [LawfulEqOrd A] [Number R]

omit [LawfulEqOrd A] in
theorem counterparts : first.Counterparts rename second targets others :=
  ⟨sameTargets, isImage.classify isRenaming sameTargets, isImage.actions isRenaming⟩

theorem greedyPolicy {values : ValueTable S R} {otherValues : ValueTable T R}
    (sameValues : TableImage rename Eq values otherValues) :
    TableImage rename Eq (first.greedyPolicy targets values)
      (second.greedyPolicy others otherValues) := by
  have counterparts := isImage.counterparts isRenaming sameTargets
  rw [Model.greedyPolicy, Model.greedyPolicy, isImage.states_eq, List.foldl_map]
  refine List.foldl_rel tableImage_empty ?_
  intro state _ policy otherPolicy samePolicy
  rw [counterparts.bestAction?_eq isRenaming sameValues]
  split
  · exact samePolicy.insert isRenaming state rfl
  · exact samePolicy

theorem reachPolicy_endAlike (solver : Solver R) :
    EndAlike (fun answer other => TableImage rename Eq answer.1 other.1 ∧
        TableImage rename Eq answer.2 other.2)
      (first.reachPolicy solver targets) (second.reachPolicy solver others) := by
  have counterparts := isImage.counterparts isRenaming sameTargets
  have sameReach := counterparts.reach_endAlike isRenaming solver
  rw [Model.reachPolicy, Model.reachPolicy]
  generalize first.reach solver targets = reached at sameReach ⊢
  generalize second.reach solver others = otherReached at sameReach ⊢
  cases sameReach with
  | error error => exact .error error
  | ok sameValues =>
      exact .ok ⟨isImage.greedyPolicy isRenaming sameTargets sameValues, sameValues⟩

end IsImage

end Model

end MarkovDecision
