import MarkovDecision.Proofs.Unfolding.AnyOrder
import Mathlib.Data.List.Induction

/-!
# The unfolded model is the reachable product

`IsProduct` spells out the unfolded model: its nodes, its targets, and for each node its actions
with the probabilities and the weights of their edges.  The nodes are `bottom` and the pairs of
the least set that `KeptPair` describes.  Every unfolding that `Unfolding.build` answers with is
the product.
-/

namespace MarkovDecision

open Std

namespace Unfolding

variable {S A R : Type} [Ord S] [Ord A] [Number R]

/-- Whether the transition of a state under an action to a next one is kept and leads from one
value to another. -/
def leads (model : Model S A R) (keep : S → R → Bool) (state : S) (value : R) (action : A)
    (next : S) (nextValue : R) : Bool :=
  (model.weight? state action (some next)).any fun weight =>
    keep next (value + weight) && (Number.keyOrder (value + weight) nextValue).isEq

/-- The probabilities of the transitions of a state under an action whose next pair is not
kept. -/
def pruned (model : Model S A R) (keep : S → R → Bool) (state : S) (value : R) (action : A) :
    List R :=
  ((model.outgoing state).filter fun transition => transition.isUnder action &&
    !keep transition.target (value + transition.weight)).map (·.probability)

/-- An unfolding is the product of the model with the accumulated value, restricted to the pairs
that the rule keeps. -/
structure IsProduct (model : Model S A R) (targets : LabelSet S) (keep : S → R → Bool) (source : S)
    (initialValue : R) (unfolding : Unfolding S A R) : Prop where
  /-- The states are listed once each, and there is one edge for each action and target. -/
  wellFormed : unfolding.model.WellFormed
  initial_eq : unfolding.initial = .pair source initialValue
  contains_iff : ∀ label, unfolding.model.contains label = true ↔
    label = .bottom ∨ ∃ state value, label = .pair state value ∧
      KeptPair model targets keep source initialValue state value
  targets_iff : ∀ label, unfolding.targets.contains label = true ↔
    ∃ state value, label = .pair state value ∧
      KeptPair model targets keep source initialValue state value ∧
      targets.contains state = true
  bottomActions : ∀ action, (unfolding.model.actions .bottom).contains action = true ↔
    action = .loop
  bottomEntry : ∀ action label probability,
    (unfolding.model.actions .bottom).probability? action label = some probability ↔
      probability = 1 ∧ action = .loop ∧ label = .bottom
  bottomWeight : ∀ action label weight,
    unfolding.model.weight? .bottom action (some label) = some weight ↔
      weight = 0 ∧ action = .loop ∧ label = .bottom
  targetActions : ∀ {state value}, KeptPair model targets keep source initialValue state value →
    targets.contains state = true → ∀ action,
      (unfolding.model.actions (.pair state value)).contains action = true ↔
        loops model state action
  targetEntry : ∀ {state value}, KeptPair model targets keep source initialValue state value →
    targets.contains state = true → ∀ action label probability,
      (unfolding.model.actions (.pair state value)).probability? action label = some probability ↔
        probability = 1 ∧ loops model state action ∧ compare (.pair state value) label = .eq
  targetWeight : ∀ {state value}, KeptPair model targets keep source initialValue state value →
    targets.contains state = true → ∀ action label weight,
      unfolding.model.weight? (.pair state value) action (some label) = some weight ↔
        weight = 0 ∧ loops model state action ∧ compare (.pair state value) label = .eq
  stepActions : ∀ {state value}, KeptPair model targets keep source initialValue state value →
    ¬targets.contains state = true → ∀ action,
      (unfolding.model.actions (.pair state value)).contains action = true ↔
        ∃ original, action = .take original ∧ (model.actions state).contains original = true
  stepEntry : ∀ {state value}, KeptPair model targets keep source initialValue state value →
    ¬targets.contains state = true → ∀ action next nextValue,
      (unfolding.model.actions (.pair state value)).probability? (.take action) (.pair next nextValue) =
        if leads model keep state value action next nextValue then
          (model.actions state).probability? action next
        else none
  stepWeight : ∀ {state value}, KeptPair model targets keep source initialValue state value →
    ¬targets.contains state = true → ∀ action next nextValue,
      unfolding.model.weight? (.pair state value) (.take action) (some (.pair next nextValue)) =
        if leads model keep state value action next nextValue then
          model.weight? state action (some next)
        else none
  prunedEntry : ∀ {state value}, KeptPair model targets keep source initialValue state value →
    ¬targets.contains state = true → ∀ action,
      (unfolding.model.actions (.pair state value)).probability? (.take action) .bottom =
        (total? (pruned model keep state value action)).map (0 + ·)

section Edges

omit [Ord S] [Ord A] in
theorem foldl_takeIn_probability (transitions : List (Transition S A R)) :
    (transitions.foldl takeIn none).map (·.1) = total? (transitions.map (·.probability)) := by
  have taken := Model.probability_foldl_takeUp
    (transitions.map fun transition => (transition.probability, transition.weight))
  rw [List.foldl_map, List.map_map] at taken
  exact taken

omit [Ord S] [Ord A] in
theorem exists_foldl_takeIn_iff (transitions : List (Transition S A R)) :
    (∃ edge, transitions.foldl takeIn none = some edge) ↔ transitions ≠ [] := by
  induction transitions using List.reverseRecOn with
  | nil => simp
  | append_singleton transitions last _ =>
      rw [List.foldl_append]
      simp [takeIn]

omit [Number R] in
/-- Among transitions that differ in action or target, those of one action and target are what a
search finds. -/
theorem filter_eq_of_unique {transitions : List (Transition S A R)} [TransOrd S] [TransOrd A]
    (unique : transitions.Pairwise fun first second => ¬first.Joins second.action second.target)
    {action : A} {target : S} (test : Transition S A R → Bool)
    (isJoining : ∀ transition, test transition = true → transition.Joins action target) :
    transitions.filter test =
      ((transitions.find? (Transition.fits action target)).filter test).toList := by
  induction transitions with
  | nil => rfl
  | cons first rest ih =>
      obtain ⟨apart, uniqueRest⟩ := List.pairwise_cons.mp unique
      by_cases joins : first.fits action target = true
      · have noneLater : rest.filter test = [] := by
          rw [List.filter_eq_nil_iff]
          intro other member passes
          have otherJoins := isJoining other passes
          rw [Transition.fits_eq_true_iff] at joins
          exact apart other member
            ⟨TransCmp.eq_trans joins.1 (OrientedCmp.eq_symm otherJoins.1),
              TransCmp.eq_trans joins.2 (OrientedCmp.eq_symm otherJoins.2)⟩
        rw [List.find?_cons_of_pos joins, List.filter_cons, noneLater, Option.filter_some]
        split <;> rfl
      · have fails : ¬test first = true := fun passes =>
          joins ((Transition.fits_eq_true_iff _ _ _).mpr (isJoining first passes))
        rw [List.find?_cons_of_neg joins, List.filter_cons_of_neg fails, ih uniqueRest]

variable [TransOrd S] [TransOrd A] [LawfulNumber R] {model : Model S A R} {keep : S → R → Bool}

omit [Ord A] [TransOrd A] [TransOrd S] in
theorem compare_destination_pair_iff (respects : RespectsKeys keep) (value : R)
    (transition : Transition S A R) (next : S) (nextValue : R) :
    compare (destination keep value transition) (.pair next nextValue) = .eq ↔
      compare transition.target next = .eq ∧ keep next (value + transition.weight) = true ∧
        Number.keyOrder (value + transition.weight) nextValue = .eq := by
  have sameKeep (sameTarget : compare transition.target next = .eq) :
      keep transition.target (value + transition.weight) =
        keep next (value + transition.weight) :=
    respects ((UnfoldedState.compare_pair_eq_iff _ _ _ _).mpr
      ⟨sameTarget, ReflCmp.compare_self⟩)
  unfold destination
  split
  · rename_i kept
    rw [UnfoldedState.compare_pair_eq_iff]
    constructor
    · rintro ⟨sameTarget, sameValue⟩
      exact ⟨sameTarget, sameKeep sameTarget ▸ kept, sameValue⟩
    · rintro ⟨sameTarget, -, sameValue⟩
      exact ⟨sameTarget, sameValue⟩
  · rename_i dropped
    simp only [UnfoldedState.compare_bottom_pair, reduceCtorEq, false_iff]
    rintro ⟨sameTarget, kept, -⟩
    exact dropped ((sameKeep sameTarget).trans kept)

theorem stepEdge?_pair (wellFormed : model.WellFormed) (respects : RespectsKeys keep) (state : S)
    (value : R) (action : A) (next : S) (nextValue : R) :
    stepEdge? model keep state value (.take action) (.pair next nextValue) =
      if leads model keep state value action next nextValue then model.edge? state action next
      else none := by
  have meaning (transition : Transition S A R) :
      contributes keep value (.take action) (.pair next nextValue) transition = true ↔
        transition.Joins action next ∧ keep next (value + transition.weight) = true ∧
          Number.keyOrder (value + transition.weight) nextValue = .eq := by
    rw [contributes, Bool.and_eq_true, sameLabel_eq_true_iff, sameLabel_eq_true_iff,
      UnfoldedAction.compare_take_take, compare_destination_pair_iff respects, ← and_assoc]
    rfl
  rw [stepEdge?, filter_eq_of_unique (wellFormed.unique state) _
    fun transition passes => ((meaning transition).mp passes).1]
  change _ = if leads model keep state value action next nextValue then
    (model.transition? state action next).map _ else none
  rw [leads, Model.weight?_some]
  cases found : model.transition? state action next with
  | none =>
      rw [Model.transition?] at found
      rw [found]
      rfl
  | some transition =>
      have joins := (Model.transition?_eq_some found).2
      rw [Model.transition?] at found
      rw [found, Option.filter_some]
      by_cases passes : contributes keep value (.take action) (.pair next nextValue) transition =
          true
      · have isLeading := ((meaning transition).mp passes).2
        simp [passes, isLeading, takeIn, Model.takeUp]
      · have notLeading : ¬(keep next (value + transition.weight) = true ∧
            Number.keyOrder (value + transition.weight) nextValue = .eq) := fun isLeading =>
          passes ((meaning transition).mpr ⟨joins, isLeading⟩)
        simp [passes, notLeading]

theorem leads_of_mem_outgoing (wellFormed : model.WellFormed) {state : S} {value : R}
    {transition : Transition S A R} (leaves : transition ∈ model.outgoing state) {action : A}
    (sameAction : compare transition.action action = .eq)
    (kept : keep transition.target (value + transition.weight) = true) :
    leads model keep state value action transition.target (value + transition.weight) = true := by
  rw [leads, Model.weight?_some,
    wellFormed.transition?_of_mem leaves ⟨sameAction, ReflCmp.compare_self⟩]
  have sameValue : Number.keyOrder (value + transition.weight) (value + transition.weight) = .eq :=
    ReflCmp.compare_self
  simp [kept, sameValue]

omit [TransOrd S] [TransOrd A] [LawfulNumber R] in
/-- The edge to the bottom is that of the transitions that are pruned. -/
theorem stepEdge?_bottom (state : S) (value : R) (action : A) :
    (stepEdge? model keep state value (.take action) .bottom).map (·.1) =
      total? (pruned model keep state value action) := by
  have sameTest : (contributes keep value (.take action) .bottom : Transition S A R → Bool) =
      fun transition => transition.isUnder action &&
        !keep transition.target (value + transition.weight) := by
    funext transition
    rw [Bool.eq_iff_iff]
    unfold contributes destination
    split <;> simp_all
  rw [stepEdge?, foldl_takeIn_probability, sameTest, pruned]

theorem exists_stepEdge?_iff (state : S) (value : R) (action : UnfoldedAction A) :
    (∃ target edge, stepEdge? model keep state value action target = some edge) ↔
      ∃ original, action = .take original ∧ (model.actions state).contains original = true := by
  have nonempty (target : UnfoldedState S R) :
      (∃ edge, stepEdge? model keep state value action target = some edge) ↔
        ∃ transition ∈ model.outgoing state,
          contributes keep value action target transition = true := by
    rw [stepEdge?, exists_foldl_takeIn_iff, Ne, List.filter_eq_nil_iff]
    simp
  simp only [nonempty, Model.contains_actions]
  constructor
  · rintro ⟨target, transition, leaves, passes⟩
    obtain ⟨sameAction, -⟩ : compare (.take transition.action) action = .eq ∧
        compare (destination keep value transition) target = .eq := by
      simpa [contributes] using passes
    cases action with
    | loop => cases sameAction
    | take original => exact ⟨original, rfl, transition, leaves, sameAction⟩
  · rintro ⟨original, rfl, transition, leaves, sameAction⟩
    refine ⟨destination keep value transition, transition, leaves, ?_⟩
    simp [contributes, sameAction]

end Edges

variable [TransOrd S] [TransOrd A] [LawfulNumber R] {model : Model S A R} {targets : LabelSet S}
  {keep : S → R → Bool} {source : S} {initialValue : R}

theorem probability?_eq_some_iff {unfolded : UnfoldedModel S A R} (wellFormed : unfolded.WellFormed)
    {here : UnfoldedState S R} {action : UnfoldedAction A} {label : UnfoldedState S R}
    {condition : Prop}
    (isLoop : ∀ edge, unfolded.edge? here action label = some edge ↔ edge = (1, 0) ∧ condition)
    (probability : R) :
    (unfolded.actions here).probability? action label = some probability ↔
      probability = 1 ∧ condition := by
  rw [wellFormed.probability?_actions, Model.probability?_eq_edge?, Option.map_map,
    Option.map_eq_some_iff]
  constructor
  · rintro ⟨edge, edgeEq, rfl⟩
    obtain ⟨rfl, holds⟩ := (isLoop edge).mp edgeEq
    exact ⟨LawfulNumber.zero_add_one, holds⟩
  · rintro ⟨rfl, holds⟩
    exact ⟨(1, 0), (isLoop _).mpr ⟨rfl, holds⟩, LawfulNumber.zero_add_one⟩

omit [TransOrd S] [TransOrd A] [LawfulNumber R] in
theorem weight?_eq_some_iff {unfolded : UnfoldedModel S A R}
    {here : UnfoldedState S R} {action : UnfoldedAction A} {label : UnfoldedState S R}
    {condition : Prop}
    (isLoop : ∀ edge, unfolded.edge? here action label = some edge ↔ edge = (1, 0) ∧ condition)
    (weight : R) :
    unfolded.weight? here action (some label) = some weight ↔ weight = 0 ∧ condition := by
  rw [Model.weight?_eq_edge?, Option.map_eq_some_iff]
  constructor
  · rintro ⟨edge, edgeEq, rfl⟩
    obtain ⟨rfl, holds⟩ := (isLoop edge).mp edgeEq
    exact ⟨rfl, holds⟩
  · rintro ⟨rfl, holds⟩
    exact ⟨(1, 0), (isLoop _).mpr ⟨rfl, holds⟩, rfl⟩

/-- An exploration that has come to its end is the product. -/
theorem Explored.isProduct (wellFormed : model.WellFormed) (respects : RespectsKeys keep)
    {progress : Progress S A R}
    (explored : Explored model targets keep source initialValue progress)
    (noneWaiting : progress.waiting = []) :
    IsProduct model targets keep source initialValue
      ⟨progress.model, progress.targets, .pair source initialValue⟩ := by
  have keptIff (state : S) (value : R) : progress.model.contains (.pair state value) = true ↔
      KeptPair model targets keep source initialValue state value :=
    ⟨explored.sound state value, explored.searched.contains_of_keptPair noneWaiting⟩
  have finished {state : S} {value : R}
      (isKept : KeptPair model targets keep source initialValue state value) :
      Finished model targets keep progress state value := by
    rcases explored.finished state value ((keptIff state value).mpr isKept) with
      ⟨entry, member, -⟩ | finished
    · rw [noneWaiting] at member
      cases member
    · exact finished
  refine {
    wellFormed := explored.wellFormed
    initial_eq := rfl
    contains_iff := explored.searched.contains_iff noneWaiting
    targets_iff := explored.searched.targets_iff noneWaiting
    bottomActions := ?_
    bottomEntry := fun action label => probability?_eq_some_iff explored.wellFormed
      (explored.bottomEdge action label)
    bottomWeight := fun action label => weight?_eq_some_iff (explored.bottomEdge action label)
    targetActions := ?_
    targetEntry := fun isKept isTarget action label => probability?_eq_some_iff explored.wellFormed
      ((finished isKept).looping isTarget action label)
    targetWeight := fun isKept isTarget action label =>
      weight?_eq_some_iff ((finished isKept).looping isTarget action label)
    stepActions := ?_
    stepEntry := ?_
    stepWeight := ?_
    prunedEntry := ?_ }
  · intro action
    rw [Model.contains_actions_iff_edge?]
    simp only [explored.bottomEdge]
    simp
  · intro state value isKept isTarget action
    rw [Model.contains_actions_iff_edge?]
    simp only [(finished isKept).looping isTarget]
    constructor
    · rintro ⟨label, edge, -, isLooping, -⟩
      exact isLooping
    · intro isLooping
      exact ⟨.pair state value, (1, 0), rfl, isLooping, ReflCmp.compare_self⟩
  · intro state value isKept noTarget action
    rw [Model.contains_actions_iff_edge?]
    simp only [(finished isKept).stepping noTarget]
    exact exists_stepEdge?_iff state value action
  · intro state value isKept noTarget action next nextValue
    rw [explored.wellFormed.probability?_actions, wellFormed.probability?_actions,
      Model.probability?_eq_edge?, Model.probability?_eq_edge?,
      (finished isKept).stepping noTarget, stepEdge?_pair wellFormed respects]
    split <;> rfl
  · intro state value isKept noTarget action next nextValue
    rw [Model.weight?_eq_edge?, Model.weight?_eq_edge?, (finished isKept).stepping noTarget,
      stepEdge?_pair wellFormed respects]
    split <;> rfl
  · intro state value isKept noTarget action
    rw [explored.wellFormed.probability?_actions, Model.probability?_eq_edge?,
      (finished isKept).stepping noTarget, stepEdge?_bottom]

/-- The rule for pairs cannot tell pairs with the same key apart. -/
theorem respectsKeys_keeps (remaining : Option (Distances S R)) (bound : R) :
    RespectsKeys (keeps remaining bound) := by
  intro first second value other same
  obtain ⟨sameState, sameValue⟩ := (UnfoldedState.compare_pair_eq_iff _ _ _ _).mp same
  cases remaining with
  | none => simp only [keeps, LawfulNumber.le_iff_of_sameKey bound sameValue]
  | some distances =>
      have sameDistance : recorded distances first = recorded distances second := by
        rw [recorded, recorded, TreeMap.getElem?_congr sameState]
      simp only [keeps, sameDistance]
      cases recorded distances second with
      | none => rfl
      | some distance =>
          simp only [LawfulNumber.le_iff_of_sameKey bound
            (LawfulNumber.sub_sameKey distance sameValue)]

omit [TransOrd S] [TransOrd A] [LawfulNumber R] in
theorem exists_remainingLoss_of_build {bound : R} {settings : UnfoldSettings R}
    {unfolding : Unfolding S A R}
    (built : build model source targets bound settings = .ok unfolding) :
    ∃ remaining, remainingLoss model targets settings.pruning = .ok remaining := by
  unfold build at built
  split at built
  · cases built
  · rename_i remaining lossEq
    exact ⟨remaining, lossEq⟩

/-- What a build ends with is the product under the rule for what may still be lost. -/
theorem isProduct_of_build (wellFormed : model.WellFormed) {bound : R}
    {settings : UnfoldSettings R} {remaining : Option (Distances S R)}
    (lossEq : remainingLoss model targets settings.pruning = .ok remaining)
    {unfolding : Unfolding S A R}
    (built : build model source targets bound settings = .ok unfolding) :
    IsProduct model targets (keeps remaining bound) source settings.initialValue unfolding := by
  rw [build, lossEq] at built
  dsimp only at built
  split at built
  · cases built
  · rename_i progress ended
    cases built
    have respects : RespectsKeys (keeps remaining bound) := respectsKeys_keeps remaining bound
    obtain ⟨explored, noneWaiting⟩ := explored_start.explore respects ended
    exact explored.isProduct wellFormed respects noneWaiting

/-- The unfolding that is answered is the reachable product of the model with the value, under
the rule of the pruning mode. -/
theorem build_isProduct (wellFormed : model.WellFormed) {bound : R}
    {settings : UnfoldSettings R} {unfolding : Unfolding S A R}
    (built : build model source targets bound settings = .ok unfolding) :
    ∃ remaining, remainingLoss model targets settings.pruning = .ok remaining ∧
      IsProduct model targets (keeps remaining bound) source settings.initialValue unfolding := by
  obtain ⟨remaining, lossEq⟩ := exists_remainingLoss_of_build built
  exact ⟨remaining, lossEq, isProduct_of_build wellFormed lossEq built⟩

/-- A state that tries again at a cost until it comes to a target at a lower one. -/
def tryAgain : Model Nat Nat Rat :=
  (Model.empty.addTransition 0 0 1 (1 / 2) (-1)).addTransition 0 0 0 (1 / 2) (-2)

theorem wellFormed_tryAgain : tryAgain.WellFormed :=
  (Model.wellFormed_empty.addTransition 0 0 1 (1 / 2) (-1)).addTransition 0 0 0 (1 / 2) (-2)

/-- The unfolding of `tryAgain` with three to lose is the product: trying a third time is out of
reach. -/
theorem build_isProduct_tryAgain :
    tryAgain.WellFormed ∧ ∃ unfolding,
      build tryAgain 0 {1} (-3) ⟨.shortestPath, 100, 0⟩ = .ok unfolding ∧
      ∃ remaining, remainingLoss tryAgain {1} .shortestPath = .ok remaining ∧
        IsProduct tryAgain {1} (keeps remaining (-3)) 0 0 unfolding := by
  obtain ⟨unfolding, built⟩ := exists_eq_ok
    (show (build tryAgain 0 {1} (-3) ⟨.shortestPath, 100, 0⟩).isOk = true by decide +kernel)
  exact ⟨wellFormed_tryAgain, unfolding, built, build_isProduct wellFormed_tryAgain built⟩

end Unfolding

end MarkovDecision
