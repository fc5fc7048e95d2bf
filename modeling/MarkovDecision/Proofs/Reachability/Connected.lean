import MarkovDecision.Proofs.Model.Merged
import MarkovDecision.Proofs.Reachability.Reach
import MarkovDecision.Proofs.Reachability.Renamed

/-!
# Classes and answers follow from connectivity

One backward search from all targets classifies the states, and a forward search from one state
says whether it is connected to another.  Both find the same: a state is left to the linear program
exactly if it is connected to a target without being one.

What an answer of `Model.reach` owes to the classes it has whatever the solver is.  The solver is
asked for the unknown states only, and what it says of them is brought between zero and one.

The searches are compared where labels that compare equal are equal.  A model over other labels has
an image over such labels, which agrees with it in all that is said here.
-/

namespace MarkovDecision

open Std (TreeMap TreeSet TransOrd LawfulEqOrd)

/-- The order of numbers as far as it takes to bring every number between zero and one. -/
class UnitOrder (R : Type) [Number R] : Prop where
  le_of_lt : ∀ {first second : R}, first < second → first ≤ second
  zero_le_zero : (0 : R) ≤ 0
  zero_le_one : (0 : R) ≤ 1
  one_le_one : (1 : R) ≤ 1

instance : UnitOrder Rat where
  le_of_lt isLess := isLess.le
  zero_le_zero := le_rfl
  zero_le_one := zero_le_one
  one_le_one := le_rfl

section Clamped

variable {R : Type} [Number R] [UnitOrder R]

theorem zero_le_larger_zero (value : R) : 0 ≤ Number.larger value 0 := by
  unfold Number.larger
  split
  · rename_i positive
    exact UnitOrder.le_of_lt positive
  · rw [if_pos UnitOrder.zero_le_zero]
    exact UnitOrder.zero_le_zero

theorem smaller_one_mem {value : R} (nonneg : 0 ≤ value) :
    0 ≤ Number.smaller value 1 ∧ Number.smaller value 1 ≤ 1 := by
  unfold Number.smaller
  split
  · rename_i less
    exact ⟨nonneg, UnitOrder.le_of_lt less⟩
  · rw [if_pos UnitOrder.one_le_one]
    exact ⟨UnitOrder.zero_le_one, UnitOrder.one_le_one⟩

theorem clampProbability_mem (value : R) :
    0 ≤ Model.clampProbability value ∧ Model.clampProbability value ≤ 1 :=
  smaller_one_mem (zero_le_larger_zero value)

end Clamped

namespace Model

variable {S A R : Type} [Ord S]

/-- The classes of the states of a model are those that connectivity gives them. -/
structure ClassifiedByConnection (model : Model S A R) (targets : LabelSet S) : Prop where
  target_iff : ∀ state, (model.classify targets)[state]? = some .target ↔
    model.contains state = true ∧ state ∈ targets
  unknown_iff : ∀ state, (model.classify targets)[state]? = some .unknown ↔
    model.contains state = true ∧ state ∉ targets ∧
      ∃ target ∈ targets, model.connected? state target = some true
  unreachable_iff : ∀ state, (model.classify targets)[state]? = some .unreachable ↔
    model.contains state = true ∧ state ∉ targets ∧
      ¬∃ target ∈ targets, model.connected? state target = some true
  unreachable_next : ∀ state, (model.classify targets)[state]? = some .unreachable →
    ∀ next ∈ model.successors state, (model.classify targets)[next]? = some .unreachable

/-- An answer has a probability for each state and nothing else, with certainty at the targets and
impossibility at the states that are connected to none of them. -/
structure AnsweredByConnection [Number R] (model : Model S A R) (targets : LabelSet S)
    (reach : Reach S R) : Prop where
  listed : ∀ state, (reach.values[state]?).isSome = true ↔ model.contains state = true
  probability : ∀ (state : S) (value : R), reach.values[state]? = some value → 0 ≤ value ∧ value ≤ 1
  target : ∀ state ∈ targets, model.contains state = true → reach.values[state]? = some 1
  unconnected : ∀ state, model.contains state = true →
    (¬∃ target ∈ targets, model.connected? state target = some true) →
      reach.values[state]? = some 0
  unknowns : reach.unknowns = model.states.toList.countP fun state =>
    (model.classify targets)[state]? = some .unknown

/-- The states of a model are classified, and nothing else is. -/
theorem ClassifiedByConnection.isSome_iff {model : Model S A R} {targets : LabelSet S}
    (classified : model.ClassifiedByConnection targets) (state : S) :
    (model.classify targets)[state]?.isSome = true ↔ model.contains state = true := by
  rw [Option.isSome_iff_exists]
  constructor
  · rintro ⟨standing, found⟩
    cases standing with
    | target => exact ((classified.target_iff state).mp found).1
    | unknown => exact ((classified.unknown_iff state).mp found).1
    | unreachable => exact ((classified.unreachable_iff state).mp found).1
  · intro known
    by_cases isTarget : state ∈ targets
    · exact ⟨.target, (classified.target_iff state).mpr ⟨known, isTarget⟩⟩
    · by_cases connected : ∃ target ∈ targets, model.connected? state target = some true
      · exact ⟨.unknown, (classified.unknown_iff state).mpr ⟨known, isTarget, connected⟩⟩
      · exact ⟨.unreachable, (classified.unreachable_iff state).mpr ⟨known, isTarget, connected⟩⟩

variable [TransOrd S]

section Lawful

variable [LawfulEqOrd S] [Ord A] {model : Model S A R} (wellFormed : model.WellFormed)
  (targets : LabelSet S)
include wellFormed

theorem WellFormed.classifiedByConnection_of_lawful : model.ClassifiedByConnection targets where
  target_iff state := by
    rw [wellFormed.getElem?_classify_eq_some_iff, classification_eq_target_iff,
      TreeSet.mem_iff_contains]
  unknown_iff state := by
    rw [wellFormed.getElem?_classify_eq_some_iff, classification_eq_unknown_iff,
      ← TreeSet.mem_iff_contains, ← TreeSet.mem_iff_contains,
      wellFormed.mem_comingTo_iff_connected]
  unreachable_iff state := by
    rw [wellFormed.getElem?_classify_eq_some_iff, classification_eq_unreachable_iff,
      ← TreeSet.mem_iff_contains, ← TreeSet.mem_iff_contains,
      wellFormed.mem_comingTo_iff_connected]
  unreachable_next state cutOff next isNext := by
    rw [wellFormed.getElem?_classify_eq_some_iff] at cutOff ⊢
    exact ⟨(wellFormed.mem_states_iff next).mp (wellFormed.successors_mem_states isNext),
      wellFormed.unreachable_successor cutOff.2 isNext⟩

theorem WellFormed.length_unsettledStates_of_lawful :
    (unsettledStates (model.classify targets)).length = model.states.toList.countP fun state =>
      (model.classify targets)[state]? = some .unknown := by
  rw [List.countP_eq_length_filter]
  apply List.Perm.length_eq
  rw [List.perm_ext_iff_of_nodup (nodup_unsettledStates _) (wellFormed.nodup_states.filter _)]
  intro state
  rw [mem_unsettledStates_iff, List.mem_filter, decide_eq_true_iff, iff_and_self]
  intro isUnknown
  exact (wellFormed.mem_states_iff state).mpr
    ((wellFormed.getElem?_classify_eq_some_iff targets state .unknown).mp isUnknown).1

end Lawful

section Images

variable {T : Type} [Ord T] [TransOrd T] [LawfulEqOrd T] {rename : S → T}
  (isRenaming : IsRenaming rename) {change : R → R} {model : Model S A R} {image : Model T A R}
  (isImage : model.IsImage rename change image) {targets : LabelSet S} {others : LabelSet T}
  (sameTargets : SetImage rename targets others)
include isRenaming isImage sameTargets

omit [LawfulEqOrd T] in
theorem IsImage.exists_connected_iff (state : S) :
    (∃ other ∈ others, image.connected? (rename state) other = some true) ↔
      ∃ target ∈ targets, model.connected? state target = some true := by
  rw [isRenaming.surjective.exists]
  simp only [sameTargets.mem_iff, isImage.connected?_eq isRenaming]

theorem ClassifiedByConnection.of_image (classified : image.ClassifiedByConnection others) :
    model.ClassifiedByConnection targets := by
  have classes := isImage.classify isRenaming sameTargets
  have connectedIff := isImage.exists_connected_iff isRenaming sameTargets
  refine ⟨fun state => ?_, fun state => ?_, fun state => ?_, ?_⟩
  · rw [← classes.getElem?_same, classified.target_iff, isImage.contains_eq, sameTargets.mem_iff]
  · rw [← classes.getElem?_same, classified.unknown_iff, isImage.contains_eq, sameTargets.mem_iff,
      connectedIff]
  · rw [← classes.getElem?_same, classified.unreachable_iff, isImage.contains_eq,
      sameTargets.mem_iff, connectedIff]
  · intro state cutOff next isNext
    rw [← classes.getElem?_same] at cutOff ⊢
    apply classified.unreachable_next (rename state) cutOff
    rw [isImage.successors_eq]
    exact List.mem_map_of_mem isNext

end Images

section General

variable [Ord A] {model : Model S A R} (wellFormed : model.WellFormed)
include wellFormed

theorem WellFormed.classifiedByConnection (targets : LabelSet S) :
    model.ClassifiedByConnection targets := by
  obtain ⟨image, others, imageWellFormed, isImage, sameTargets⟩ := wellFormed.exists_merged targets
  exact (imageWellFormed.classifiedByConnection_of_lawful others).of_image isRenaming_merged
    isImage sameTargets

theorem WellFormed.length_unsettledStates (targets : LabelSet S) :
    (unsettledStates (model.classify targets)).length = model.states.toList.countP fun state =>
      (model.classify targets)[state]? = some .unknown := by
  obtain ⟨image, others, imageWellFormed, isImage, sameTargets⟩ := wellFormed.exists_merged targets
  have classes := isImage.classify isRenaming_merged sameTargets
  have lengthEq := imageWellFormed.length_unsettledStates_of_lawful others
  rw [unsettledStates_image isRenaming_merged classes, List.length_map, isImage.states_eq,
    List.countP_map] at lengthEq
  simpa only [Function.comp_def, classes.getElem?_same] using lengthEq

theorem WellFormed.connected?_self {state : S} (known : model.contains state = true) :
    model.connected? state state = some true := by
  obtain ⟨image, -, imageWellFormed, isImage, -⟩ := wellFormed.exists_merged ∅
  rw [← isImage.connected?_eq isRenaming_merged, imageWellFormed.connected?_eq_some_true_iff]
  exact ⟨(isImage.contains_eq state).trans known, Relation.ReflTransGen.refl⟩

end General

section Answers

/-- Every classified state has its settled value or else some variable, clamped. -/
theorem exists_getElem?_assembled [Number R] (classes : TreeMap S Classification)
    (solution : Array R) (state : S) : ∃ index : Nat,
      (assembled classes solution).values[state]? = classes[state]?.map fun standing =>
        (settledValue? standing).getD
          (clampProbability (LinearProgram.assignment solution index)) := by
  -- Labels that compare equal share a variable, so positions are read off the image.
  obtain ⟨image, isImage⟩ := exists_tableImage (isRenaming_merged (S := S)) classes id
  have sameClasses : TableImage merged Eq classes image := isImage
  obtain ⟨sameValues, -⟩ := assembled_image isRenaming_merged sameClasses solution
  have valueEq := getElem?_assembled image solution (merged state)
  rw [sameValues.getElem?_same, sameClasses.getElem?_same] at valueEq
  exact ⟨_, valueEq⟩

variable [Number R] {model : Model S A R} {targets : LabelSet S} {solver : Solver R}
  {reach : Reach S R}

/-- Whatever the solver answers, a settled state has its value. -/
theorem reach_of_settled [Ord A] (answered : model.reach solver targets = .ok reach) {state : S}
    {standing : Classification} {value : R} (settled : settledValue? standing = some value)
    (isClass : (model.classify targets)[state]? = some standing) :
    reach.values[state]? = some value := by
  obtain ⟨solution, -, rfl⟩ := exists_solution_of_reach_eq_ok answered
  obtain ⟨index, valueEq⟩ := exists_getElem?_assembled (model.classify targets) solution state
  rw [valueEq, isClass, Option.map_some, settled, Option.getD_some]

variable [Ord A] (wellFormed : model.WellFormed)
include wellFormed

theorem WellFormed.reach_of_target (answered : model.reach solver targets = .ok reach) {state : S}
    (isTarget : targets.contains state = true) (known : model.contains state = true) :
    reach.values[state]? = some 1 :=
  reach_of_settled answered rfl (((wellFormed.classifiedByConnection targets).target_iff state).mpr
    ⟨known, TreeSet.mem_iff_contains.mpr isTarget⟩)

theorem WellFormed.answeredByConnection [UnitOrder R]
    (answered : model.reach solver targets = .ok reach) :
    model.AnsweredByConnection targets reach := by
  have classified := wellFormed.classifiedByConnection targets
  obtain ⟨solution, -, rfl⟩ := exists_solution_of_reach_eq_ok answered
  have valueEq := exists_getElem?_assembled (model.classify targets) solution
  refine ⟨?listed, ?probability, ?target, ?unconnected, wellFormed.length_unsettledStates targets⟩
  case listed =>
    intro state
    obtain ⟨index, found⟩ := valueEq state
    rw [found, Option.isSome_map, classified.isSome_iff]
  case probability =>
    intro state value isValue
    obtain ⟨index, found⟩ := valueEq state
    rw [found, Option.map_eq_some_iff] at isValue
    obtain ⟨standing, -, rfl⟩ := isValue
    cases standing with
    | target => exact ⟨UnitOrder.zero_le_one, UnitOrder.one_le_one⟩
    | unreachable => exact ⟨UnitOrder.zero_le_zero, UnitOrder.zero_le_one⟩
    | unknown => exact clampProbability_mem _
  case target =>
    intro state isTarget known
    exact wellFormed.reach_of_target answered (TreeSet.mem_iff_contains.mp isTarget) known
  case unconnected =>
    intro state known unconnected
    -- A target of the model is connected to itself.
    have noTarget : state ∉ targets := fun isTarget =>
      unconnected ⟨state, isTarget, wellFormed.connected?_self known⟩
    exact reach_of_settled answered rfl
      ((classified.unreachable_iff state).mpr ⟨known, noTarget, unconnected⟩)

end Answers

/-- Classes, connectivity and answers agree, for all targets, those that name no state included,
and for every solver. -/
theorem WellFormed.connectivity_classifies_answers [Ord A] [Number R] [UnitOrder R]
    {model : Model S A R} (wellFormed : model.WellFormed) (targets : LabelSet S) :
    model.ClassifiedByConnection targets ∧
      ∀ (solver : Solver R) (reach : Reach S R), model.reach solver targets = .ok reach →
        model.AnsweredByConnection targets reach :=
  ⟨wellFormed.classifiedByConnection targets,
    fun _ _ answered => wellFormed.answeredByConnection answered⟩

/-- The theorem at work on a model with a state of each class, where one target names no state. -/
theorem connectivity_classifies_answers_waitOrTry :
    waitOrTry.WellFormed ∧ waitOrTry.contains 7 = false ∧
      waitOrTry.ClassifiedByConnection {1, 7} ∧
      ∃ reach, waitOrTry.reach LinearProgram.solve {1, 7} = .ok reach ∧
        waitOrTry.AnsweredByConnection {1, 7} reach := by
  have agree := wellFormed_waitOrTry.connectivity_classifies_answers {1, 7}
  obtain ⟨reach, answered⟩ := exists_eq_ok
    (show (waitOrTry.reach LinearProgram.solve {1, 7}).isOk = true by decide +kernel)
  exact ⟨wellFormed_waitOrTry, by decide +kernel, agree.1, reach, answered,
    agree.2 _ reach answered⟩

end Model

end MarkovDecision
