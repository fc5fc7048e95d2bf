import MarkovDecision.Proofs.Rescaling
import MarkovDecision.Proofs.Unfolding.Order

/-!
# Unfoldings of rescaled models

When the bound, the initial value and the weights are rescaled together, the same pairs are kept, up
to their values, and they are found in the same order.  The work lists of the two explorations stay
images of each other, the same step outgrows the limit in both, and the unfolded models are images
of each other in the end: each pair has its value moved, and `bottom` stays.
-/

namespace MarkovDecision

open Std (TreeMap TransOrd LawfulEqOrd)

variable {S A : Type}

/-- The state with its value moved. -/
def UnfoldedState.moved (move : Rat → Rat) : UnfoldedState S Rat → UnfoldedState S Rat
  | bottom => bottom
  | pair state value => pair state (move value)

variable [Ord S] {move change : Rat → Rat} (rescales : Rescales move change)

section Keys

include rescales

theorem Rescales.injective : Function.Injective move := by
  intro first second same
  apply le_antisymm
  · exact (rescales.move_le_iff first second).mp same.le
  · exact (rescales.move_le_iff second first).mp same.ge

/-- Moved values have the order of the values, and every value has been moved to its place. -/
theorem Rescales.isRenaming_moved :
    IsRenaming (UnfoldedState.moved move : UnfoldedState S Rat → UnfoldedState S Rat) where
  compare_eq first second := by
    cases first with
    | bottom => cases second <;> rfl
    | pair state value =>
        cases second with
        | bottom => rfl
        | pair other otherValue =>
            have sameOrder : Number.keyOrder (move value) (move otherValue) =
                Number.keyOrder value otherValue := by
              simp only [Number.keyOrder, compareOfLessAndEq, rescales.move_lt_iff,
                rescales.injective.eq_iff]
            exact congrArg (compare state other).then sameOrder
  surjective label := by
    cases label with
    | bottom => exact ⟨.bottom, rfl⟩
    | pair state value =>
        obtain ⟨original, rfl⟩ := rescales.surjective value
        exact ⟨.pair state original, rfl⟩

end Keys

namespace Unfolding

section Steps

include rescales

theorem keeps_moved {remaining otherRemaining : Option (Distances S Rat)}
    (sameLoss : Option.Rel (Rescaled change) remaining otherRemaining) (bound : Rat) (state : S)
    (value : Rat) :
    keeps otherRemaining (move bound) state (move value) = keeps remaining bound state value := by
  cases sameLoss with
  | none => simp only [keeps, rescales.move_le_iff]
  | @some distances others rescaled =>
      simp only [keeps, rescaled.recorded_eq]
      cases recorded distances state with
      | none => rfl
      | some distance =>
          rw [Option.map_some]
          dsimp only
          rw [← rescales.move_sub]
          simp only [rescales.move_le_iff]

end Steps

variable [Ord A]

/-- The work that is left after the same steps: the same pairs, with their values moved. -/
structure Progress.IsImage (move change : Rat → Rat) (progress other : Progress S A Rat) :
    Prop where
  model : progress.model.IsImage (UnfoldedState.moved move) change other.model
  targets : SetImage (UnfoldedState.moved move) progress.targets other.targets
  waiting_eq : other.waiting = progress.waiting.map fun entry => (entry.1, move entry.2)

theorem Progress.IsImage.rest {progress other : Progress S A Rat}
    (isImage : progress.IsImage move change other) (waiting : List (S × Rat)) :
    Progress.IsImage move change { progress with waiting := waiting }
      { other with waiting := waiting.map fun entry => (entry.1, move entry.2) } :=
  ⟨isImage.model, isImage.targets, rfl⟩

theorem explore_of_nil (model : Model S A Rat) (targets : LabelSet S) (keep : S → Rat → Bool)
    (limit : Nat) {progress : Progress S A Rat} (noneWaiting : progress.waiting = []) :
    explore model targets keep limit progress = .ok progress := by
  rw [explore]
  split
  · rfl
  · rename_i isNext
    rw [noneWaiting] at isNext
    cases isNext

theorem explore_of_cons (model : Model S A Rat) (targets : LabelSet S) (keep : S → Rat → Bool)
    (limit : Nat) {progress : Progress S A Rat} {state : S} {value : Rat} {rest : List (S × Rat)}
    (isNext : progress.waiting = (state, value) :: rest) :
    explore model targets keep limit progress =
      (expand model targets keep limit state value { progress with waiting := rest }).bind
        (explore model targets keep limit) := by
  rw [explore]
  split
  · rename_i noneWaiting
    rw [isNext] at noneWaiting
    cases noneWaiting
  · rename_i isFirst
    rw [isNext] at isFirst
    cases isFirst
    split <;> rename_i expanded <;> rw [expanded] <;> rfl

variable [TransOrd S] [LawfulEqOrd S] {first second : Model S A Rat}
  (sameModel : first.IsImage id change second)

omit [TransOrd S] [LawfulEqOrd S] in
include sameModel in
theorem actions_eq_of_isImage (state : S) : second.actions state = first.actions state := by
  have outgoingEq : second.outgoing state =
      (first.outgoing state).map (Transition.renamed id change) := sameModel.outgoing_eq state
  rw [Model.actions, Model.actions, outgoingEq, List.foldl_map]
  rfl

section Exploring

include rescales

include sameModel in
theorem addTerminal_image {unfolded other : UnfoldedModel S A Rat}
    (isImage : unfolded.IsImage (UnfoldedState.moved move) change other) (state : S)
    (value : Rat) :
    (addTerminal first state value unfolded).IsImage (UnfoldedState.moved move) change
      (addTerminal second state (move value) other) := by
  have isRenaming := rescales.isRenaming_moved (S := S)
  have looped {unfolded other : UnfoldedModel S A Rat}
      (isImage : unfolded.IsImage (UnfoldedState.moved move) change other)
      (action : UnfoldedAction A) :
      (unfolded.addTransition (.pair state value) action (.pair state value) 1 0).IsImage
        (UnfoldedState.moved move) change
        (other.addTransition (.pair state (move value)) action (.pair state (move value)) 1 0) := by
    have added :=
      isImage.addTransition isRenaming (.pair state value) action (.pair state value) 1 0
    rw [rescales.change_zero] at added
    exact added
  unfold addTerminal
  dsimp only
  rw [actions_eq_of_isImage sameModel]
  split
  · exact looped isImage .loop
  · exact List.foldl_rel isImage fun entry _ unfolded other same => looped same (.take entry.1)

variable {keep otherKeep : S → Rat → Bool}
  (sameRule : ∀ state value, otherKeep state (move value) = keep state value)
include sameRule

theorem addStep_endAlike (limit : Nat) (here : UnfoldedState S Rat) (value : Rat)
    {progress other : Progress S A Rat} (isImage : progress.IsImage move change other)
    (transition : Transition S A Rat) :
    EndAlike (Progress.IsImage move change)
      (addStep keep limit here value progress transition)
      (addStep otherKeep limit (here.moved move) (move value) other
        (transition.renamed id change)) := by
  have isRenaming := rescales.isRenaming_moved (S := S)
  obtain ⟨model, targets, waiting⟩ := progress
  obtain ⟨otherModel, otherTargets, otherWaiting⟩ := other
  obtain ⟨sameUnfolded, sameTargets, sameWaiting⟩ := isImage
  let there := UnfoldedState.pair transition.target (value + transition.weight)
  have sameContains : otherModel.contains
      (.pair transition.target (move (value + transition.weight))) = model.contains there :=
    sameUnfolded.contains_eq there
  have sameSize : otherModel.size = model.size := sameUnfolded.size_eq
  have added (next : UnfoldedState S Rat) {unfolded other : UnfoldedModel S A Rat}
      (isImage : unfolded.IsImage (UnfoldedState.moved move) change other) :=
    isImage.addTransition isRenaming here (.take transition.action) next transition.probability
      transition.weight
  simp only [addStep, Transition.renamed, id_eq, ← rescales.move_add, sameRule, sameContains,
    sameSize, there]
  split
  · split
    · exact .ok ⟨added there sameUnfolded, sameTargets, sameWaiting⟩
    · split
      · exact .error limit
      · refine .ok ⟨added there (sameUnfolded.addState isRenaming there), sameTargets, ?_⟩
        exact congrArg ((transition.target, move (value + transition.weight)) :: ·) sameWaiting
  · exact .ok ⟨added .bottom sameUnfolded, sameTargets, sameWaiting⟩

include sameModel

theorem expand_endAlike (targets : LabelSet S) (limit : Nat) (state : S) (value : Rat)
    {progress other : Progress S A Rat} (isImage : progress.IsImage move change other) :
    EndAlike (Progress.IsImage move change)
      (expand first targets keep limit state value progress)
      (expand second targets otherKeep limit state (move value) other) := by
  have isRenaming := rescales.isRenaming_moved (S := S)
  have outgoingEq : second.outgoing state =
      (first.outgoing state).map (Transition.renamed id change) := sameModel.outgoing_eq state
  unfold expand
  dsimp only
  split
  · exact .ok ⟨addTerminal_image rescales sameModel isImage.model state value,
      isImage.targets.insert isRenaming (.pair state value), isImage.waiting_eq⟩
  · rw [outgoingEq, List.foldlM_map]
    exact EndAlike.foldlM (fun transition _ _ _ same => addStep_endAlike rescales sameRule limit
      (.pair state value) value same transition) isImage

theorem explore_endAlike (targets : LabelSet S) (limit : Nat) {progress other : Progress S A Rat}
    (isImage : progress.IsImage move change other) :
    EndAlike (Progress.IsImage move change) (explore first targets keep limit progress)
      (explore second targets otherKeep limit other) := by
  fun_induction explore first targets keep limit progress generalizing other with
  | case1 progress isEmpty =>
      have otherEmpty := isImage.waiting_eq
      rw [isEmpty, List.map_nil] at otherEmpty
      rw [explore_of_nil second targets otherKeep limit otherEmpty]
      exact .ok isImage
  | case2 progress state value rest isNext exceeded failed =>
      have otherNext := isImage.waiting_eq
      rw [isNext, List.map_cons] at otherNext
      have expandedAlike := expand_endAlike rescales sameModel sameRule targets limit state value
        (isImage.rest rest)
      rw [failed] at expandedAlike
      rw [explore_of_cons second targets otherKeep limit otherNext]
      generalize expand second targets otherKeep limit state (move value) _ = otherExpanded
        at expandedAlike ⊢
      cases expandedAlike with
      | error => exact .error exceeded
  | case3 progress state value rest isNext next expanded ih =>
      have otherNext := isImage.waiting_eq
      rw [isNext, List.map_cons] at otherNext
      have expandedAlike := expand_endAlike rescales sameModel sameRule targets limit state value
        (isImage.rest rest)
      rw [expanded] at expandedAlike
      rw [explore_of_cons second targets otherKeep limit otherNext]
      generalize expand second targets otherKeep limit state (move value) _ = otherExpanded
        at expandedAlike ⊢
      cases expandedAlike with
      | ok same => exact ih same

end Exploring

/-- An unfolding has the states of another with their values moved. -/
structure IsImage (move change : Rat → Rat) (unfolding other : Unfolding S A Rat) : Prop where
  model : unfolding.model.IsImage (UnfoldedState.moved move) change other.model
  targets : SetImage (UnfoldedState.moved move) unfolding.targets other.targets
  initial_eq : other.initial = unfolding.initial.moved move

include rescales

theorem start_image (source : S) (initialValue : Rat) :
    (start source initialValue : Progress S A Rat).IsImage move change
      (start source (move initialValue)) := by
  have isRenaming := rescales.isRenaming_moved (S := S)
  have looping : (Model.empty : UnfoldedModel S A Rat).IsImage (UnfoldedState.moved move) change
      Model.empty := Model.isImage_empty
  have looped := looping.addTransition isRenaming .bottom .loop .bottom 1 0
  rw [rescales.change_zero] at looped
  exact ⟨looped.addState isRenaming (.pair source initialValue), setImage_empty, rfl⟩

include sameModel

omit [Ord A] [LawfulEqOrd S] in
/-- What a value may still lose changes like the weights, or the same reward cycle is met. -/
theorem remainingLoss_rescaled (targets : LabelSet S) (pruning : Pruning) :
    EndAlike (Option.Rel (Rescaled change)) (remainingLoss first targets pruning)
      (remainingLoss second targets pruning) := by
  cases pruning with
  | threshold => exact .ok .none
  | shortestPath =>
      have sameDistances := sameModel.distancesToTargets_endAlike rescales targets
      unfold remainingLoss
      generalize first.distancesToTargets targets = measured at sameDistances ⊢
      generalize second.distancesToTargets targets = otherMeasured at sameDistances ⊢
      cases sameDistances with
      | ok rescaled => exact .ok (.some rescaled)
      | error cycle => exact .error cycle

/-- With bound, initial value and weights rescaled, a model has the image of its unfolding, or it is
refused for the same reason. -/
theorem build_endAlike_rescaled (source : S) (targets : LabelSet S) (bound : Rat)
    (settings : UnfoldSettings Rat) :
    EndAlike (IsImage move change) (build first source targets bound settings)
      (build second source targets (move bound)
        { settings with initialValue := move settings.initialValue }) := by
  have sameLoss := remainingLoss_rescaled rescales sameModel targets settings.pruning
  unfold build
  generalize remainingLoss first targets settings.pruning = loss at sameLoss ⊢
  generalize remainingLoss second targets settings.pruning = otherLoss at sameLoss ⊢
  cases sameLoss with
  | error cycle => exact .error _
  | @ok remaining otherRemaining same =>
      have explored := explore_endAlike rescales sameModel (keeps_moved rescales same bound) targets
        settings.maxStates (start_image rescales source settings.initialValue)
      dsimp only
      generalize explore first targets (keeps remaining bound) settings.maxStates
        (start source settings.initialValue) = ended at explored ⊢
      generalize explore second targets (keeps otherRemaining (move bound)) settings.maxStates
        (start source (move settings.initialValue)) = otherEnded at explored ⊢
      cases explored with
      | error limit => exact .error _
      | ok isImage => exact .ok ⟨isImage.model, isImage.targets, rfl⟩

end Unfolding

end MarkovDecision
