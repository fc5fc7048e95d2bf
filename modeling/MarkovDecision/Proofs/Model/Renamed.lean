import MarkovDecision.Proofs.Model.Connectivity
import MarkovDecision.Proofs.Renaming

/-!
# Images of models

A model is the image of another under a renaming of its states when it lists the same states and
transitions under their new names.  Actions and probabilities stay; weights may change.  The same
calls, with the new names and weights, keep it so.  What does not depend on weights is the same for
a model and its image: the tables of actions, and the walks that lead to targets.
-/

namespace MarkovDecision

open Std (TreeMap TransOrd LawfulEqOrd)

variable {S T A R : Type}

/-- A transition under the new name of its target, with a changed weight. -/
def Transition.renamed (rename : S → T) (change : R → R) (transition : Transition S A R) :
    Transition T A R :=
  { number := transition.number
    action := transition.action
    target := rename transition.target
    probability := transition.probability
    weight := change transition.weight }

/-- A node whose transitions lead to the new names of their targets. -/
def Node.renamed (rename : S → T) (change : R → R) (node : Node S A R) : Node T A R :=
  ⟨node.number, node.outgoing.map (Transition.renamed rename change)⟩

variable [Ord S] [Ord T] {rename : S → T} {change : R → R}

omit [Ord S] [Ord T] in
theorem Transition.isUnder_renamed [Ord A] (transition : Transition S A R) (action : A) :
    (transition.renamed rename change).isUnder action = transition.isUnder action :=
  rfl

theorem Transition.leadsTo_renamed (isRenaming : IsRenaming rename)
    (transition : Transition S A R) (target : S) :
    (transition.renamed rename change).leadsTo (rename target) = transition.leadsTo target := by
  rw [leadsTo, leadsTo, sameLabel, sameLabel, renamed, isRenaming.compare_eq]

namespace Model

/-- A model lists the states and transitions of another under new names, with changed weights. -/
structure IsImage (rename : S → T) (change : R → R) (first : Model S A R) (second : Model T A R) :
    Prop where
  states_eq : second.states.toList = first.states.toList.map rename
  nodes : TableImage rename (fun node other => node.renamed rename change = other) first.nodes
    second.nodes
  transitionCount_eq : second.transitionCount = first.transitionCount

theorem isImage_empty : (empty : Model S A R).IsImage rename change (empty : Model T A R) :=
  ⟨rfl, tableImage_empty, rfl⟩

theorem isImage_id (model : Model S A R) : model.IsImage id id model := by
  refine ⟨(List.map_id _).symm, tableImage_of_getElem?_eq fun key => ?_, rfl⟩
  have unchanged : (Node.renamed id id : Node S A R → Node S A R) = id := by
    funext node
    exact congrArg (Node.mk node.number) (List.map_id node.outgoing)
  rw [unchanged, Option.map_id]
  rfl

variable {first : Model S A R} {second : Model T A R}

theorem IsImage.size_eq (isImage : first.IsImage rename change second) :
    second.size = first.size := by
  rw [size, size, ← Array.length_toList, ← Array.length_toList, isImage.states_eq, List.length_map]

theorem IsImage.outgoing_eq (isImage : first.IsImage rename change second) (state : S) :
    second.outgoing (rename state) =
      (first.outgoing state).map (Transition.renamed rename change) := by
  rw [outgoing, outgoing, isImage.nodes.getElem?_eq]
  cases first.nodes[state]? <;> rfl

theorem IsImage.transitionsByState_eq (isImage : first.IsImage rename change second) :
    second.transitionsByState = first.transitionsByState.map fun entry =>
      (rename entry.1, entry.2.renamed rename change) := by
  rw [transitionsByState, transitionsByState, isImage.states_eq, List.flatMap_map, List.map_flatMap]
  simp only [isImage.outgoing_eq, List.map_map]
  rfl

omit [Ord S] [Ord T] in
theorem insertByNumber_renamed (entry : S × Transition S A R)
    (entries : List (S × Transition S A R)) :
    insertByNumber (rename entry.1, entry.2.renamed rename change)
        (entries.map fun entry => (rename entry.1, entry.2.renamed rename change)) =
      (insertByNumber entry entries).map fun entry =>
        (rename entry.1, entry.2.renamed rename change) := by
  induction entries with
  | nil => rfl
  | cons first rest ih =>
      rw [List.map_cons, insertByNumber, insertByNumber, ih]
      by_cases isBefore : entry.2.number ≤ first.2.number
      · rw [if_pos isBefore]
        exact if_pos isBefore
      · rw [if_neg isBefore]
        exact if_neg isBefore

theorem IsImage.transitions_eq (isImage : first.IsImage rename change second) :
    second.transitions = first.transitions.map fun entry =>
      (rename entry.1, entry.2.renamed rename change) := by
  rw [transitions, transitions, isImage.transitionsByState_eq]
  induction first.transitionsByState with
  | nil => rfl
  | cons entry entries ih =>
      rw [List.map_cons, List.foldr_cons, List.foldr_cons, ih, insertByNumber_renamed]

variable [TransOrd S] [TransOrd T]

theorem IsImage.contains_eq (isImage : first.IsImage rename change second) (state : S) :
    second.contains (rename state) = first.contains state :=
  isImage.nodes.contains_eq state

omit [TransOrd S] [TransOrd T] in
theorem IsImage.number?_eq (isImage : first.IsImage rename change second) (state : S) :
    second.number? (rename state) = first.number? state := by
  rw [number?, number?, isImage.nodes.getElem?_eq, Option.map_map]
  rfl

omit [TransOrd S] [TransOrd T] in
theorem IsImage.successors_eq (isImage : first.IsImage rename change second) (state : S) :
    second.successors (rename state) = (first.successors state).map rename := by
  rw [successors, successors, isImage.outgoing_eq, List.map_map, List.map_map]
  rfl

variable (isRenaming : IsRenaming rename)
include isRenaming

theorem exists_isImage [LawfulEqOrd T] (change : R → R) (model : Model S A R) :
    ∃ image : Model T A R, model.IsImage rename change image := by
  obtain ⟨nodes, isTable⟩ :=
    exists_tableImage isRenaming model.nodes (Node.renamed rename change)
  exact ⟨⟨(model.states.toList.map rename).toArray, nodes, model.transitionCount⟩,
    List.toList_toArray, isTable, rfl⟩

theorem IsImage.wellFormed [Ord A] (isImage : first.IsImage rename change second)
    (wellFormed : first.WellFormed) : second.WellFormed where
  distinct := by
    rw [isImage.states_eq, List.pairwise_map]
    exact wellFormed.distinct.imp fun apart same =>
      apart ((isRenaming.compare_eq _ _).symm.trans same)
  numbered index name found := by
    rw [← Array.getElem?_toList, isImage.states_eq, List.getElem?_map] at found
    obtain ⟨label, labelFound, rfl⟩ := Option.map_eq_some_iff.mp found
    rw [isImage.number?_eq]
    exact wellFormed.numbered index label (Array.getElem?_toList ▸ labelFound)
  listed name known := by
    obtain ⟨state, rfl⟩ := isRenaming.surjective name
    obtain ⟨label, member, same⟩ :=
      wellFormed.listed state ((isImage.contains_eq state).symm.trans known)
    refine ⟨rename label, ?_, (isRenaming.compare_eq _ _).trans same⟩
    rw [isImage.states_eq]
    exact List.mem_map_of_mem member
  closed name renamed leaves := by
    obtain ⟨state, rfl⟩ := isRenaming.surjective name
    rw [isImage.outgoing_eq] at leaves
    obtain ⟨transition, leavesToo, rfl⟩ := List.mem_map.mp leaves
    exact (isImage.contains_eq transition.target).trans
      (wellFormed.closed state transition leavesToo)
  unique name := by
    obtain ⟨state, rfl⟩ := isRenaming.surjective name
    rw [isImage.outgoing_eq, List.pairwise_map]
    exact (wellFormed.unique state).imp fun apart joins =>
      apart ⟨joins.1, (isRenaming.compare_eq _ _).symm.trans joins.2⟩

theorem IsImage.connected?_eq (isImage : first.IsImage rename change second) (source target : S) :
    second.connected? (rename source) (rename target) = first.connected? source target := by
  have searched := closure_image isRenaming isImage.successors_eq first.size [source] target
  rw [List.map_singleton] at searched
  rw [connected?, connected?, isImage.contains_eq, isImage.contains_eq, isImage.size_eq, searched]

theorem IsImage.addState (isImage : first.IsImage rename change second) (state : S) :
    (first.addState state).IsImage rename change (second.addState (rename state)) := by
  cases present : first.contains state with
  | true =>
      have unchanged : first.addState state = first := by simp [Model.addState, present]
      have otherUnchanged : second.addState (rename state) = second := by
        simp [Model.addState, isImage.contains_eq, present]
      rw [unchanged, otherUnchanged]
      exact isImage
  | false =>
      rw [addState_of_not_contains present,
        addState_of_not_contains ((isImage.contains_eq state).trans present), isImage.size_eq]
      exact {
        states_eq := by
          rw [Array.toList_push, Array.toList_push, isImage.states_eq, List.map_append]
          rfl
        nodes := isImage.nodes.insert isRenaming state rfl
        transitionCount_eq := isImage.transitionCount_eq }

section Connecting

variable [Ord A]

omit [TransOrd S] [TransOrd T] in
theorem IsImage.hasTransition_eq (isImage : first.IsImage rename change second) (source : S)
    (action : A) (target : S) :
    second.hasTransition (rename source) action (rename target) =
      first.hasTransition source action target := by
  rw [hasTransition, hasTransition, isImage.outgoing_eq, List.any_map]
  congr 1
  funext transition
  rw [Function.comp_apply, Transition.isUnder_renamed, Transition.leadsTo_renamed isRenaming]

variable [Number R]

omit [TransOrd S] [TransOrd T] in
theorem accumulate_renamed (action : A) (target : S) (probability : R)
    (transitions : List (Transition S A R)) :
    accumulate action (rename target) probability
        (transitions.map (Transition.renamed rename change)) =
      (accumulate action target probability transitions).map
        (Transition.renamed rename change) := by
  rw [accumulate, accumulate, List.map_map, List.map_map]
  congr 1
  funext transition
  rw [Function.comp_apply, Function.comp_apply, Transition.isUnder_renamed,
    Transition.leadsTo_renamed isRenaming]
  split <;> rfl

theorem IsImage.connect (isImage : first.IsImage rename change second) (source : S) (action : A)
    (target : S) (probability weight : R) :
    (first.connect source action target probability weight).IsImage rename change
      (second.connect (rename source) action (rename target) probability (change weight)) := by
  unfold Model.connect
  rw [isImage.hasTransition_eq isRenaming]
  split
  · refine ⟨isImage.states_eq, isImage.nodes.modify isRenaming source ?_,
      isImage.transitionCount_eq⟩
    rintro node other rfl
    exact congrArg (Node.mk node.number) (accumulate_renamed isRenaming ..).symm
  · refine ⟨isImage.states_eq, isImage.nodes.modify isRenaming source ?_,
      congrArg (· + 1) isImage.transitionCount_eq⟩
    rintro node other rfl
    rw [isImage.transitionCount_eq]
    rfl

omit [Ord T] [TransOrd T] [Ord A] [Number R] isRenaming in
theorem storedLabel_eq [LawfulEqOrd S] (model : Model S A R) (state : S) :
    model.storedLabel state = state :=
  LawfulEqOrd.eq_of_compare (compare_storedLabel model state)

omit [Ord A] [Number R] in
/-- The label under which a state is stored has the new name that the state has. -/
theorem rename_storedLabel [LawfulEqOrd T] (model : Model S A R) (state : S) :
    rename (model.storedLabel state) = rename state :=
  isRenaming.rename_eq_iff.mpr (compare_storedLabel model state)

variable [LawfulEqOrd T]

theorem IsImage.addTransition (isImage : first.IsImage rename change second) (source : S)
    (action : A) (target : S) (probability weight : R) :
    (first.addTransition source action target probability weight).IsImage rename change
      (second.addTransition (rename source) action (rename target) probability
        (change weight)) := by
  have extended := (isImage.addState isRenaming source).addState isRenaming target
  let model := (first.addState source).addState target
  have connected := extended.connect isRenaming (model.storedLabel source) action
    (model.storedLabel target) probability weight
  rw [rename_storedLabel isRenaming, rename_storedLabel isRenaming] at connected
  simp only [Model.addTransition, storedLabel_eq (S := T)]
  exact connected

end Connecting

section Queries

variable [Ord A] [Number R]

theorem IsImage.actions [TransOrd A] (isImage : first.IsImage rename change second) (state : S) :
    TableImage id (TableImage rename Eq) (first.actions state)
      (second.actions (rename state)) := by
  rw [Model.actions, Model.actions, isImage.outgoing_eq, List.foldl_map]
  refine List.foldl_rel tableImage_empty ?_
  intro transition _ table image tables
  refine tables.alter isRenaming_id transition.action (.some ?_)
  have distributions := tables.getD transition.action ∅ ∅ tableImage_empty
  refine distributions.alter isRenaming transition.target (.some ?_)
  exact congrArg (· + transition.probability)
    (distributions.getD transition.target 0 0 rfl)

omit [Ord A] [Number R] in
theorem IsImage.comingTo [LawfulEqOrd T]
    (isImage : first.IsImage rename change second)
    {targets : LabelSet S} {others : LabelSet T} (sameTargets : SetImage rename targets others) :
    SetImage rename (first.comingTo targets) (second.comingTo others) := by
  have predecessors : TableImage rename (fun states others => states.map rename = others)
      first.predecessorTable second.predecessorTable := by
    rw [predecessorTable, predecessorTable, isImage.transitionsByState_eq, List.foldl_map]
    refine List.foldl_rel tableImage_empty ?_
    intro entry _ table image tables
    refine tables.alter isRenaming entry.2.target (.some ?_)
    have earlier := tables.getD entry.2.target [] [] rfl
    exact congrArg (rename entry.1 :: ·) earlier
  have seedsEq : others.toList.filter second.contains =
      (targets.toList.filter first.contains).map rename := by
    rw [sameTargets.toList_eq_map isRenaming, List.filter_map]
    congr 1
    simp only [Function.comp_def, isImage.contains_eq]
  rw [Model.comingTo, Model.comingTo, seedsEq, isImage.size_eq]
  apply closure_image isRenaming
  intro state
  rw [TreeMap.getD_eq_getD_getElem?, TreeMap.getD_eq_getD_getElem?]
  exact (predecessors.getD state [] [] rfl).symm

end Queries

end Model

end MarkovDecision
