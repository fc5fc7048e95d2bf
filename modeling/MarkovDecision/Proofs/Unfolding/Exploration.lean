import MarkovDecision.Proofs.Unfolding.Steps

/-!
# The work list

Every pair of the unfolded model either waits on the work list, without edges, or is finished: it
has the edges that its transitions make and its next pairs are in the model, or it is a target and
has its loops.  Each pair that is taken off the list is finished by its expansion, and the pairs
found on the way wait.  When the list is empty, the pairs are the least set that holds the first
pair and the next pairs that are kept.
-/

namespace MarkovDecision

open Std

namespace Unfolding

variable {S A R : Type} [Ord S] [Ord A] [Number R]

/-- The least set of pairs that holds the first one and, with each pair whose state is not a
target, the next pairs that are kept.  Pairs with the same key are the same pair. -/
inductive KeptPair (model : Model S A R) (targets : LabelSet S) (keep : S → R → Bool) (source : S)
    (initialValue : R) : S → R → Prop
  | start : KeptPair model targets keep source initialValue source initialValue
  | step {state : S} {value : R} {transition : Transition S A R}
      (here : KeptPair model targets keep source initialValue state value)
      (noTarget : ¬targets.contains state = true) (leaves : transition ∈ model.outgoing state)
      (kept : keep transition.target (value + transition.weight) = true) :
      KeptPair model targets keep source initialValue transition.target
        (value + transition.weight)
  | same {state other : S} {value otherValue : R}
      (here : KeptPair model targets keep source initialValue state value)
      (sameNode : compare (UnfoldedState.pair state value) (.pair other otherValue) = .eq) :
      KeptPair model targets keep source initialValue other otherValue

/-- A rule that cannot tell pairs with the same key apart. -/
def RespectsKeys (keep : S → R → Bool) : Prop :=
  ∀ {first second : S} {value other : R},
    compare (UnfoldedState.pair first value) (.pair second other) = .eq →
      keep first value = keep second other

/-- The edge of a pair that its transitions make under an action to a node. -/
def stepEdge? (model : Model S A R) (keep : S → R → Bool) (state : S) (value : R)
    (action : UnfoldedAction A) (target : UnfoldedState S R) : Option (R × R) :=
  ((model.outgoing state).filter (contributes keep value action target)).foldl takeIn none

/-- A pair with all that becomes of it in the model. -/
structure Finished (model : Model S A R) (targets : LabelSet S) (keep : S → R → Bool)
    (progress : Progress S A R) (state : S) (value : R) : Prop where
  listed : targets.contains state = true → progress.targets.contains (.pair state value) = true
  looping : targets.contains state = true → ∀ action target edge,
    progress.model.edge? (.pair state value) action target = some edge ↔
      edge = (1, 0) ∧ loops model state action ∧ compare (.pair state value) target = .eq
  closed : ¬targets.contains state = true → ∀ transition ∈ model.outgoing state,
    keep transition.target (value + transition.weight) = true →
      progress.model.contains (destination keep value transition) = true
  stepping : ¬targets.contains state = true → ∀ action target,
    progress.model.edge? (.pair state value) action target =
      stepEdge? model keep state value action target

/-- What holds between two entries of the work list. -/
structure Explored (model : Model S A R) (targets : LabelSet S) (keep : S → R → Bool) (source : S)
    (initialValue : R) (progress : Progress S A R) : Prop where
  wellFormed : progress.model.WellFormed
  bottomKnown : progress.model.contains .bottom = true
  startKnown : progress.model.contains (.pair source initialValue) = true
  sound : ∀ state value, progress.model.contains (.pair state value) = true →
    KeptPair model targets keep source initialValue state value
  bottomEdge : ∀ action target edge, progress.model.edge? .bottom action target = some edge ↔
    edge = (1, 0) ∧ action = .loop ∧ target = .bottom
  waitingKnown : ∀ entry ∈ progress.waiting, progress.model.contains (node entry) = true
  waitingDistinct : progress.waiting.Pairwise fun first second =>
    compare (node first) (node second) ≠ .eq
  waitingFresh : ∀ entry ∈ progress.waiting, ∀ action target,
    progress.model.edge? (node entry) action target = none
  targetsKnown : ∀ label, progress.targets.contains label = true →
    ∃ state value, label = .pair state value ∧ progress.model.contains label = true ∧
      targets.contains state = true
  finished : ∀ state value, progress.model.contains (.pair state value) = true →
    (∃ entry ∈ progress.waiting, compare (node entry) (.pair state value) = .eq) ∨
      Finished model targets keep progress state value

variable [TransOrd S] [TransOrd A] [LawfulNumber R] {model : Model S A R} {targets : LabelSet S}
  {keep : S → R → Bool} {source : S} {initialValue : R}

section Congruence

omit [Ord A] [TransOrd A] in
theorem compare_destination (respects : RespectsKeys keep) {value other : R}
    (sameValue : Number.keyOrder value other = .eq) (transition : Transition S A R) :
    compare (destination keep value transition) (destination keep other transition) = .eq := by
  have sameNext : compare (UnfoldedState.pair transition.target (value + transition.weight))
      (.pair transition.target (other + transition.weight)) = .eq :=
    (UnfoldedState.compare_pair_eq_iff _ _ _ _).mpr
      ⟨ReflCmp.compare_self, LawfulNumber.add_sameKey transition.weight sameValue⟩
  unfold destination
  rw [respects sameNext]
  split
  · exact sameNext
  · rfl

omit [TransOrd A] in
theorem contributes_congr (respects : RespectsKeys keep) {value other : R}
    (sameValue : Number.keyOrder value other = .eq) (action : UnfoldedAction A)
    (target : UnfoldedState S R) :
    (contributes keep value action target : Transition S A R → Bool) =
      contributes keep other action target := by
  funext transition
  have sameTarget := TransCmp.congr_left (compare_destination respects sameValue transition)
    (c := target)
  unfold contributes sameLabel
  rw [sameTarget]

/-- Being finished does not depend on the name of the pair. -/
theorem Finished.congr (respects : RespectsKeys keep) {progress : Progress S A R}
    {state other : S} {value otherValue : R}
    (finished : Finished model targets keep progress state value)
    (same : compare (UnfoldedState.pair state value) (.pair other otherValue) = .eq) :
    Finished model targets keep progress other otherValue := by
  obtain ⟨sameState, sameValue⟩ := (UnfoldedState.compare_pair_eq_iff _ _ _ _).mp same
  have targetsEq : targets.contains state = targets.contains other :=
    TreeSet.contains_congr sameState
  have outgoingEq := model.outgoing_congr sameState
  have loopsEq (action : UnfoldedAction A) : loops model state action ↔ loops model other action := by
    have staysEq (action : A) : stays model state action = stays model other action := by
      unfold stays
      rw [model.actions_congr sameState]
      cases (model.actions other)[action]? with
      | none => rfl
      | some distribution => exact TreeMap.contains_congr sameState
    cases action <;> simp only [loops, staysEq]
  have edgeEq (action : UnfoldedAction A) (target : UnfoldedState S R) :
      progress.model.edge? (.pair state value) action target =
        progress.model.edge? (.pair other otherValue) action target :=
    progress.model.edge?_congr same ReflCmp.compare_self ReflCmp.compare_self
  refine ⟨?_, ?_, ?_, ?_⟩
  · intro isTarget
    rw [← TreeSet.contains_congr same]
    exact finished.listed (targetsEq.trans isTarget)
  · intro isTarget action target edge
    rw [← edgeEq, finished.looping (targetsEq.trans isTarget), loopsEq,
      TransCmp.congr_left same]
  · intro noTarget transition leaves kept
    have sameNext : compare (UnfoldedState.pair transition.target (value + transition.weight))
        (.pair transition.target (otherValue + transition.weight)) = .eq :=
      (UnfoldedState.compare_pair_eq_iff _ _ _ _).mpr
        ⟨ReflCmp.compare_self, LawfulNumber.add_sameKey transition.weight sameValue⟩
    rw [← progress.model.contains_congr (compare_destination respects sameValue transition)]
    exact finished.closed (targetsEq ▸ noTarget) transition (outgoingEq ▸ leaves)
      ((respects sameNext).trans kept)
  · intro noTarget action target
    rw [← edgeEq, finished.stepping (targetsEq ▸ noTarget), stepEdge?, stepEdge?, outgoingEq,
      contributes_congr respects sameValue]

end Congruence

omit [TransOrd S] [TransOrd A] [LawfulNumber R] in
theorem Finished.frame {before after : Progress S A R} {state : S} {value : R}
    (finished : Finished model targets keep before state value)
    (containsMono : ∀ label, before.model.contains label = true →
      after.model.contains label = true)
    (targetsMono : ∀ label, before.targets.contains label = true →
      after.targets.contains label = true)
    (edgeEq : ∀ action target, after.model.edge? (.pair state value) action target =
      before.model.edge? (.pair state value) action target) :
    Finished model targets keep after state value where
  listed isTarget := targetsMono _ (finished.listed isTarget)
  looping isTarget action target edge := by
    rw [edgeEq]
    exact finished.looping isTarget action target edge
  closed noTarget transition leaves kept :=
    containsMono _ (finished.closed noTarget transition leaves kept)
  stepping noTarget action target := by
    rw [edgeEq]
    exact finished.stepping noTarget action target

section Found

omit [TransOrd A] in
/-- Once a pair is listed as a target, the listed targets are still pairs of the model whose states
are targets. -/
theorem targetsKnown_insert {unfolded : UnfoldedModel S A R}
    {listed : LabelSet (UnfoldedState S R)} {state : S} {value : R}
    (targetsKnown : ∀ label, listed.contains label = true → ∃ state value,
      label = .pair state value ∧ unfolded.contains label = true ∧ targets.contains state = true)
    (known : unfolded.contains (.pair state value) = true)
    (isTarget : targets.contains state = true) :
    ∀ label, (listed.insert (.pair state value)).contains label = true → ∃ state value,
      label = .pair state value ∧ unfolded.contains label = true ∧
        targets.contains state = true := by
  intro label isListed
  rw [TreeSet.contains_insert] at isListed
  rcases Bool.or_eq_true_iff.mp isListed with same | old
  · have same : compare (.pair state value) label = .eq := eq_of_beq same
    cases label with
    | bottom => cases same
    | pair other otherValue =>
        obtain ⟨sameState, -⟩ := (UnfoldedState.compare_pair_eq_iff _ _ _ _).mp same
        exact ⟨other, otherValue, rfl, (unfolded.contains_congr same).symm.trans known,
          (TreeSet.contains_congr sameState).symm.trans isTarget⟩
  · exact targetsKnown label old

omit [TransOrd S] [TransOrd A] [LawfulNumber R] in
theorem Expansion.keptPair {state : S} {value : R} {transitions : List (Transition S A R)}
    {before after : Progress S A R}
    (expanded : Expansion keep (.pair state value) value transitions before after)
    (here : KeptPair model targets keep source initialValue state value)
    (noTarget : ¬targets.contains state = true)
    (leave : ∀ transition ∈ transitions, transition ∈ model.outgoing state)
    (sound : ∀ other otherValue, before.model.contains (.pair other otherValue) = true →
      KeptPair model targets keep source initialValue other otherValue) {other : S}
    {otherValue : R} (otherKnown : after.model.contains (.pair other otherValue) = true) :
    KeptPair model targets keep source initialValue other otherValue := by
  rcases (expanded.contains_iff _).mp otherKnown with old | ⟨transition, member, same⟩
  · exact sound other otherValue old
  · by_cases kept : keep transition.target (value + transition.weight) = true
    · rw [destination, if_pos kept] at same
      exact KeptPair.same (KeptPair.step here noTarget (leave transition member) kept) same
    · rw [destination, if_neg kept] at same
      cases same

end Found

section Expanding

variable {state : S} {value : R} {before : Progress S A R}
  (explored : Explored model targets keep source initialValue
    { before with waiting := (state, value) :: before.waiting })
include explored

omit [TransOrd S] [TransOrd A] [LawfulNumber R] in
theorem Explored.apart_waiting : ∀ entry ∈ before.waiting,
    compare (.pair state value) (node entry) ≠ .eq :=
  (List.pairwise_cons.mp explored.waitingDistinct).1

omit [TransOrd S] [TransOrd A] [LawfulNumber R] in
theorem Explored.known_of_waiting : before.model.contains (.pair state value) = true :=
  explored.waitingKnown (state, value) List.mem_cons_self

omit [TransOrd S] [TransOrd A] [LawfulNumber R] in
theorem Explored.fresh (action : UnfoldedAction A) (target : UnfoldedState S R) :
    before.model.edge? (.pair state value) action target = none :=
  explored.waitingFresh (state, value) List.mem_cons_self action target

omit [TransOrd S] [TransOrd A] [LawfulNumber R] in
theorem Explored.finished_of_apart {other : S} {otherValue : R}
    (known : before.model.contains (.pair other otherValue) = true)
    (apart : compare (UnfoldedState.pair state value) (.pair other otherValue) ≠ .eq) :
    (∃ entry ∈ before.waiting, compare (node entry) (.pair other otherValue) = .eq) ∨
      Finished model targets keep before other otherValue := by
  rcases explored.finished other otherValue known with ⟨entry, member, same⟩ | finished
  · rcases List.mem_cons.mp member with isTaken | isWaiting
    · subst isTaken
      exact (apart same).elim
    · exact Or.inl ⟨entry, isWaiting, same⟩
  · exact Or.inr ⟨finished.listed, finished.looping, finished.closed, finished.stepping⟩

theorem Explored.addTerminal (respects : RespectsKeys keep)
    (isTarget : targets.contains state = true) :
    Explored model targets keep source initialValue
      { before with
        model := Unfolding.addTerminal model state value before.model
        targets := before.targets.insert (.pair state value) } := by
  have known := explored.known_of_waiting
  have containsIff := contains_addTerminal model state value known
  have apartEq {label : UnfoldedState S R} (apart : compare (.pair state value) label ≠ .eq) :=
    edge?_addTerminal_apart model state value explored.fresh apart
  refine {
    wellFormed := wellFormed_addTerminal model state value explored.wellFormed
    bottomKnown := (containsIff _).mpr explored.bottomKnown
    startKnown := (containsIff _).mpr explored.startKnown
    sound := fun other otherValue otherKnown =>
      explored.sound other otherValue ((containsIff _).mp otherKnown)
    bottomEdge := ?_
    waitingKnown := fun entry member => (containsIff _).mpr
      (explored.waitingKnown entry (List.mem_cons_of_mem _ member))
    waitingDistinct := (List.pairwise_cons.mp explored.waitingDistinct).2
    waitingFresh := ?_
    targetsKnown := ?_
    finished := ?_ }
  · intro action target edge
    rw [apartEq (by simp)]
    exact explored.bottomEdge action target edge
  · intro entry member action target
    rw [apartEq (explored.apart_waiting entry member)]
    exact explored.waitingFresh entry (List.mem_cons_of_mem _ member) action target
  · intro label isListed
    obtain ⟨other, otherValue, labelEq, labelKnown, otherTarget⟩ :=
      targetsKnown_insert explored.targetsKnown known isTarget label isListed
    exact ⟨other, otherValue, labelEq, (containsIff label).mpr labelKnown, otherTarget⟩
  · intro other otherValue otherKnown
    by_cases same : compare (UnfoldedState.pair state value) (.pair other otherValue) = .eq
    · refine Or.inr (Finished.congr respects ⟨?_, ?_, ?_, ?_⟩ same)
      · intro _
        simp
      · intro _ action target edge
        exact edge?_addTerminal model state value explored.fresh action target edge
      · exact fun noTarget => (noTarget isTarget).elim
      · exact fun noTarget => (noTarget isTarget).elim
    · rcases explored.finished_of_apart ((containsIff _).mp otherKnown) same with waits | finished
      · exact Or.inl waits
      · refine Or.inr (finished.frame (fun label => (containsIff label).mpr) ?_ (apartEq same))
        intro label isListed
        simp [isListed]

section Steps

variable {after : Progress S A R} (noTarget : ¬targets.contains state = true)
  (expanded : Expansion keep (.pair state value) value (model.outgoing state) before after)
include expanded

omit explored [TransOrd A] in
theorem Expansion.contains_destination {transition : Transition S A R}
    (leaves : transition ∈ model.outgoing state) :
    after.model.contains (destination keep value transition) = true :=
  (expanded.contains_iff _).mpr (Or.inr ⟨transition, leaves, ReflCmp.compare_self⟩)

omit [TransOrd A] in
theorem Explored.waiting_of_expansion :
    (∀ entry ∈ after.waiting, after.model.contains (node entry) = true) ∧
      (after.waiting.Pairwise fun first second => compare (node first) (node second) ≠ .eq) ∧
      ∀ entry ∈ after.waiting, ∀ action target,
        after.model.edge? (node entry) action target = none := by
  have known := explored.known_of_waiting
  obtain ⟨found, waitingEq, newPairs⟩ := expanded.waiting_eq
  rw [waitingEq]
  refine ⟨?_, ?_, ?_⟩
  · intro entry member
    rcases List.mem_append.mp member with isFound | isWaiting
    · obtain ⟨transition, leaves, kept, rfl⟩ := newPairs.isNext entry isFound
      have nextKnown := expanded.contains_destination leaves
      rw [destination, if_pos kept] at nextKnown
      exact nextKnown
    · exact (expanded.contains_iff _).mpr
        (Or.inl (explored.waitingKnown entry (List.mem_cons_of_mem _ isWaiting)))
  · rw [List.pairwise_append]
    refine ⟨newPairs.distinct, (List.pairwise_cons.mp explored.waitingDistinct).2, ?_⟩
    intro entry isFound other isWaiting same
    have old := explored.waitingKnown other (List.mem_cons_of_mem _ isWaiting)
    have isNew := newPairs.isNew entry isFound
    rw [before.model.contains_congr same, old] at isNew
    cases isNew
  · intro entry member action target
    rcases List.mem_append.mp member with isFound | isWaiting
    · have isNew := newPairs.isNew entry isFound
      rw [expanded.edge?_apart]
      · rw [Model.edge?, Model.transition?, Model.outgoing_eq_nil_of_not_contains isNew]
        rfl
      · intro same
        rw [← before.model.contains_congr same, known] at isNew
        cases isNew
    · rw [expanded.edge?_apart _ (explored.apart_waiting entry isWaiting)]
      exact explored.waitingFresh entry (List.mem_cons_of_mem _ isWaiting) action target

omit [TransOrd S] [TransOrd A] [LawfulNumber R] in
/-- The pairs that were there before, other than the one that was expanded, wait or are finished
as before. -/
theorem Explored.finished_of_old {other : S} {otherValue : R}
    (old : before.model.contains (.pair other otherValue) = true)
    (apart : compare (UnfoldedState.pair state value) (.pair other otherValue) ≠ .eq) :
    (∃ entry ∈ after.waiting, compare (node entry) (.pair other otherValue) = .eq) ∨
      Finished model targets keep after other otherValue := by
  obtain ⟨found, waitingEq, -⟩ := expanded.waiting_eq
  rcases explored.finished_of_apart old apart with ⟨entry, member, same⟩ | finished
  · left
    rw [waitingEq]
    exact ⟨entry, List.mem_append_right _ member, same⟩
  · refine Or.inr (finished.frame ?_ ?_ (expanded.edge?_apart _ apart))
    · exact fun label known => (expanded.contains_iff label).mpr (Or.inl known)
    · intro label isListed
      rw [expanded.targets_eq]
      exact isListed

include noTarget in
theorem Explored.finished_of_expansion (respects : RespectsKeys keep) {other : S} {otherValue : R}
    (otherKnown : after.model.contains (.pair other otherValue) = true) :
    (∃ entry ∈ after.waiting, compare (node entry) (.pair other otherValue) = .eq) ∨
      Finished model targets keep after other otherValue := by
  by_cases same : compare (UnfoldedState.pair state value) (.pair other otherValue) = .eq
  · refine Or.inr (Finished.congr respects ⟨?_, ?_, ?_, ?_⟩ same)
    · exact fun isTarget => (noTarget isTarget).elim
    · exact fun isTarget => (noTarget isTarget).elim
    · exact fun _ transition leaves _ => expanded.contains_destination leaves
    · intro _ action target
      rw [expanded.edge?_here, explored.fresh, stepEdge?]
  · rcases (expanded.contains_iff _).mp otherKnown with old | ⟨transition, leaves, sameNext⟩
    · exact explored.finished_of_old expanded old same
    · by_cases kept : keep transition.target (value + transition.weight) = true
      · obtain ⟨found, waitingEq, newPairs⟩ := expanded.waiting_eq
        rcases newPairs.covers transition leaves kept with old | ⟨entry, isFound, sameEntry⟩
        · exact explored.finished_of_old expanded
            ((before.model.contains_congr sameNext).symm.trans old) same
        · left
          rw [waitingEq]
          exact ⟨entry, List.mem_append_left _ isFound, TransCmp.eq_trans sameEntry sameNext⟩
      · rw [destination, if_neg kept] at sameNext
        cases sameNext

include noTarget in
/-- A pair whose state is not a target is finished by its steps. -/
theorem Explored.expansion (respects : RespectsKeys keep) :
    Explored model targets keep source initialValue after := by
  have containsMono (label : UnfoldedState S R) (old : before.model.contains label = true) :
      after.model.contains label = true := (expanded.contains_iff label).mpr (Or.inl old)
  obtain ⟨waitingKnown, waitingDistinct, waitingFresh⟩ := explored.waiting_of_expansion expanded
  refine {
    wellFormed := expanded.wellFormed explored.wellFormed
    bottomKnown := containsMono _ explored.bottomKnown
    startKnown := containsMono _ explored.startKnown
    sound := fun _ _ => expanded.keptPair (explored.sound state value explored.known_of_waiting)
      noTarget (fun _ => id) explored.sound
    bottomEdge := ?_
    waitingKnown := waitingKnown
    waitingDistinct := waitingDistinct
    waitingFresh := waitingFresh
    targetsKnown := ?_
    finished := fun _ _ => explored.finished_of_expansion noTarget expanded respects }
  · intro action target edge
    rw [expanded.edge?_apart _ (by simp)]
    exact explored.bottomEdge action target edge
  · intro label isListed
    rw [expanded.targets_eq] at isListed
    obtain ⟨other, otherValue, labelEq, labelKnown, otherTarget⟩ :=
      explored.targetsKnown label isListed
    exact ⟨other, otherValue, labelEq, containsMono label labelKnown, otherTarget⟩

end Steps

end Expanding

section Exploring

theorem explored_start :
    Explored model targets keep source initialValue (start source initialValue) := by
  let looping : UnfoldedModel S A R := Model.empty.addTransition .bottom .loop .bottom 1 0
  have edgeEq (label : UnfoldedState S R) (action : UnfoldedAction A) (target : UnfoldedState S R) :
      looping.edge? label action target =
        if compare .bottom label = .eq ∧ compare .loop action = .eq ∧
          compare .bottom target = .eq then some (1, 0) else none :=
    Model.edge?_addTransition _ _ _ _ _ _ _ _ _
  have modelEq : (start source initialValue : Progress S A R).model =
      looping.addState (.pair source initialValue) := rfl
  have containsIff (label : UnfoldedState S R) :
      (start source initialValue : Progress S A R).model.contains label = true ↔
        compare (.pair source initialValue) label = .eq ∨ compare .bottom label = .eq := by
    rw [modelEq, Model.contains_addState, Model.contains_addTransition]
    simp [Model.empty, Model.contains]
  have startEdge (label : UnfoldedState S R) (action : UnfoldedAction A)
      (target : UnfoldedState S R) :
      (start source initialValue : Progress S A R).model.edge? label action target =
        looping.edge? label action target := by
    rw [modelEq, Model.edge?_addState]
  have wellFormed : (start source initialValue : Progress S A R).model.WellFormed := by
    rw [modelEq]
    exact (Model.wellFormed_empty.addTransition _ _ _ _ _).addState _
  refine {
    wellFormed := wellFormed
    bottomKnown := (containsIff _).mpr (Or.inr rfl)
    startKnown := (containsIff _).mpr (Or.inl ReflCmp.compare_self)
    sound := ?_
    bottomEdge := ?_
    waitingKnown := ?_
    waitingDistinct := List.pairwise_singleton _ _
    waitingFresh := ?_
    targetsKnown := ?_
    finished := ?_ }
  · intro state value known
    rcases (containsIff _).mp known with same | impossible
    · exact KeptPair.same KeptPair.start same
    · cases impossible
  · intro action target edge
    rw [startEdge, edgeEq]
    cases action <;> cases target <;> simp [eq_comm]
  · intro entry member
    rw [List.mem_singleton.mp member]
    exact (containsIff _).mpr (Or.inl ReflCmp.compare_self)
  · intro entry member action target
    rw [startEdge, edgeEq, node]
    simp
  · intro label isListed
    simp [start] at isListed
  · intro state value known
    left
    rcases (containsIff _).mp known with same | impossible
    · exact ⟨(source, initialValue), List.mem_singleton.mpr rfl, same⟩
    · cases impossible

/-- Expanding the pair that is taken off the list keeps the exploration sound and complete. -/
theorem Explored.expand (respects : RespectsKeys keep) {limit : Nat} {state : S} {value : R}
    {before after : Progress S A R}
    (explored : Explored model targets keep source initialValue
      { before with waiting := (state, value) :: before.waiting })
    (expanded : Unfolding.expand model targets keep limit state value before = .ok after) :
    Explored model targets keep source initialValue after := by
  unfold Unfolding.expand at expanded
  dsimp only at expanded
  split at expanded
  · rename_i isTarget
    cases expanded
    exact explored.addTerminal respects isTarget
  · rename_i noTarget
    exact explored.expansion noTarget
      (expansion_of_foldlM expanded explored.known_of_waiting) respects

/-- When no pair is waiting any more, all of them are finished. -/
theorem Explored.explore (respects : RespectsKeys keep) {limit : Nat}
    {progress result : Progress S A R}
    (explored : Explored model targets keep source initialValue progress)
    (ended : Unfolding.explore model targets keep limit progress = .ok result) :
    Explored model targets keep source initialValue result ∧ result.waiting = [] := by
  fun_induction Unfolding.explore model targets keep limit progress with
  | case1 progress isEmpty =>
      cases ended
      exact ⟨explored, isEmpty⟩
  | case2 progress state value rest isNext limit failed => cases ended
  | case3 progress state value rest isNext next expanded ih =>
      refine ih (Explored.expand respects ?_ expanded) ended
      rw [← isNext]
      exact explored

end Exploring

end Unfolding

end MarkovDecision
