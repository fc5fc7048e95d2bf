import MarkovDecision.Model.Basic

/-!
# Well-formed models

A model is built from the empty one by mentioning states and adding transitions.  Such a model
lists every state once, under the number that its node carries; its transitions lead to states;
and no two transitions of a state share action and target.

Labels are told apart by their order alone, so that everything here also holds of labels that
are ordered alike without being equal.
-/

namespace MarkovDecision

open Std

/-- Labels name the same thing exactly if the order cannot tell them apart. -/
@[simp]
theorem sameLabel_eq_true_iff {L : Type} [Ord L] (first second : L) :
    sameLabel first second = true ↔ compare first second = .eq := by
  simp [sameLabel]

namespace Transition

variable {S A R : Type}

@[simp]
theorem isUnder_eq_true_iff [Ord A] (transition : Transition S A R) (action : A) :
    transition.isUnder action = true ↔ compare transition.action action = .eq :=
  sameLabel_eq_true_iff _ _

@[simp]
theorem leadsTo_eq_true_iff [Ord S] (transition : Transition S A R) (target : S) :
    transition.leadsTo target = true ↔ compare transition.target target = .eq :=
  sameLabel_eq_true_iff _ _

variable [Ord S] [Ord A]

/-- A transition belongs to an action and leads to a target. -/
def Joins (action : A) (target : S) (transition : Transition S A R) : Prop :=
  compare transition.action action = .eq ∧ compare transition.target target = .eq

/-- Whether a transition belongs to an action and leads to a target. -/
def fits (action : A) (target : S) (transition : Transition S A R) : Bool :=
  transition.isUnder action && transition.leadsTo target

@[simp]
theorem fits_eq_true_iff (transition : Transition S A R) (action : A) (target : S) :
    transition.fits action target = true ↔ transition.Joins action target := by
  simp [fits, Joins]

end Transition

namespace Model

variable {S A R : Type} [Ord S] [TransOrd S]

section States

theorem contains_congr (model : Model S A R) {first second : S}
    (same : compare first second = .eq) : model.contains first = model.contains second :=
  TreeMap.contains_congr same

theorem outgoing_congr (model : Model S A R) {first second : S}
    (same : compare first second = .eq) : model.outgoing first = model.outgoing second := by
  simp only [outgoing, TreeMap.getElem?_congr same]

theorem number?_congr (model : Model S A R) {first second : S}
    (same : compare first second = .eq) : model.number? first = model.number? second := by
  simp only [number?, TreeMap.getElem?_congr same]

theorem contains_of_mem_outgoing {model : Model S A R} {state : S}
    {transition : Transition S A R} (leaves : transition ∈ model.outgoing state) :
    model.contains state = true := by
  rw [contains, TreeMap.contains_eq_isSome_getElem?]
  cases node : model.nodes[state]? with
  | none => simp [outgoing, node] at leaves
  | some node => rfl

theorem outgoing_eq_nil_of_not_contains {model : Model S A R} {state : S}
    (absent : model.contains state = false) : model.outgoing state = [] := by
  have unknown : model.nodes[state]? = none :=
    TreeMap.getElem?_eq_none_of_contains_eq_false absent
  simp [outgoing, unknown]

theorem number?_isSome (model : Model S A R) (state : S) :
    (model.number? state).isSome = model.contains state := by
  simp [number?, contains]

@[simp]
theorem contains_addState (model : Model S A R) (state other : S) :
    (model.addState state).contains other = true ↔
      compare state other = .eq ∨ model.contains other = true := by
  cases present : model.contains state with
  | true =>
      have unchanged : model.addState state = model := by simp [addState, present]
      rw [unchanged]
      constructor
      · exact Or.inr
      · rintro (same | known)
        · rw [← contains_congr model same]
          exact present
        · exact known
  | false =>
      rw [addState_of_not_contains present]
      simp [contains, TreeMap.contains_insert]

@[simp]
theorem outgoing_addState (model : Model S A R) (state other : S) :
    (model.addState state).outgoing other = model.outgoing other := by
  cases present : model.contains state with
  | true => simp [addState, present]
  | false =>
      by_cases same : compare state other = .eq
      · rw [← outgoing_congr (model.addState state) same, ← outgoing_congr model same,
          outgoing_eq_nil_of_not_contains present, addState_of_not_contains present]
        simp [outgoing]
      · rw [addState_of_not_contains present]
        simp [outgoing, TreeMap.getElem?_insert, same]

/-- The stored label of a state cannot be told apart from any label that names the state. -/
theorem compare_storedLabel (model : Model S A R) (state : S) :
    compare (model.storedLabel state) state = .eq := by
  rw [storedLabel, TreeMap.getKeyD_eq_getD_getKey?]
  have self := TreeMap.compare_getKey?_self (t := model.nodes) (k := state)
  cases stored : model.nodes.getKey? state with
  | none => exact ReflCmp.compare_self
  | some label => simpa [stored] using self

end States

section Connecting

variable [Ord A] [Number R]

/-- The transitions of a state after one more was added: a transition with the same action and
target takes up its probability, else it stands in front. -/
def joined (transitions : List (Transition S A R)) (added : Transition S A R) :
    List (Transition S A R) :=
  if transitions.any (Transition.fits added.action added.target) then
    accumulate added.action added.target added.probability transitions
  else added :: transitions

@[simp]
theorem contains_connect (model : Model S A R) (source : S) (action : A) (target : S)
    (probability weight : R) (other : S) :
    (model.connect source action target probability weight).contains other =
      model.contains other := by
  unfold connect
  split <;> exact TreeMap.contains_modify

theorem outgoing_connect (model : Model S A R) {source : S} (action : A) (target : S)
    (probability weight : R) (known : model.contains source = true) (other : S) :
    (model.connect source action target probability weight).outgoing other =
      if compare source other = .eq then
        joined (model.outgoing source)
          ⟨model.transitionCount, action, target, probability, weight⟩
      else model.outgoing other := by
  rw [contains, TreeMap.contains_eq_isSome_getElem?] at known
  obtain ⟨node, nodeEq⟩ := Option.isSome_iff_exists.mp known
  have outgoingEq : model.outgoing source = node.outgoing := by simp [outgoing, nodeEq]
  have sameTest : model.hasTransition source action target =
      node.outgoing.any (Transition.fits action target) := by
    rw [hasTransition, outgoingEq]
    rfl
  simp only [connect, joined, outgoingEq, sameTest]
  by_cases same : compare source other = .eq
  · rw [if_pos same]
    split <;> simp [outgoing, TreeMap.getElem?_modify, same, nodeEq]
  · rw [if_neg same]
    split <;> simp [outgoing, TreeMap.getElem?_modify, same]

@[simp]
theorem contains_addTransition (model : Model S A R) (source : S) (action : A) (target : S)
    (probability weight : R) (other : S) :
    (model.addTransition source action target probability weight).contains other = true ↔
      compare target other = .eq ∨ compare source other = .eq ∨ model.contains other = true := by
  simp [addTransition]

theorem outgoing_addTransition (model : Model S A R) (source : S) (action : A) (target : S)
    (probability weight : R) :
    ∃ stored, compare stored target = .eq ∧ ∀ other,
      (model.addTransition source action target probability weight).outgoing other =
        if compare source other = .eq then
          joined (model.outgoing source)
            ⟨model.transitionCount, action, stored, probability, weight⟩
        else model.outgoing other := by
  let extended := (model.addState source).addState target
  have sameSource := compare_storedLabel extended source
  have countEq : extended.transitionCount = model.transitionCount := by
    simp only [extended, addState]
    repeat' split
    all_goals rfl
  refine ⟨extended.storedLabel target, compare_storedLabel extended target, fun other => ?_⟩
  have known : extended.contains (extended.storedLabel source) = true := by
    rw [contains_congr extended sameSource]
    simp [extended]
  rw [addTransition, outgoing_connect _ _ _ _ _ known]
  rw [TransCmp.congr_left sameSource]
  simp only [outgoing_congr extended sameSource, countEq]
  simp [extended]

@[simp]
theorem number?_connect (model : Model S A R) (source : S) (action : A) (target : S)
    (probability weight : R) (other : S) :
    (model.connect source action target probability weight).number? other =
      model.number? other := by
  simp only [connect, number?]
  split <;> rw [TreeMap.getElem?_modify]
  all_goals
    split
    · rename_i same
      rw [TreeMap.getElem?_congr same]
      cases model.nodes[other]? <;> rfl
    · rfl

omit [TransOrd S] in
@[simp]
theorem states_connect (model : Model S A R) (source : S) (action : A) (target : S)
    (probability weight : R) :
    (model.connect source action target probability weight).states = model.states := by
  unfold connect
  split <;> rfl

omit [TransOrd S] in
theorem mem_accumulate {action : A} {target : S} {probability : R}
    {transitions : List (Transition S A R)} {transition : Transition S A R}
    (member : transition ∈ accumulate action target probability transitions) :
    ∃ original ∈ transitions, transition.action = original.action ∧
      transition.target = original.target := by
  obtain ⟨original, originalMem, rfl⟩ := List.mem_map.mp member
  refine ⟨original, originalMem, ?_⟩
  split <;> exact ⟨rfl, rfl⟩

end Connecting

/-- What holds of every model that was built by mentioning states and adding transitions. -/
structure WellFormed [Ord A] (model : Model S A R) : Prop where
  /-- No state is listed twice. -/
  distinct : model.states.toList.Pairwise fun first second => compare first second ≠ .eq
  /-- A listed state carries its position as number. -/
  numbered : ∀ index label, model.states[index]? = some label → model.number? label = some index
  /-- Every state is listed. -/
  listed : ∀ state, model.contains state = true →
    ∃ label ∈ model.states.toList, compare label state = .eq
  /-- Transitions lead to states. -/
  closed : ∀ state, ∀ transition ∈ model.outgoing state, model.contains transition.target = true
  /-- Transitions of a state differ in action or target. -/
  unique : ∀ state, (model.outgoing state).Pairwise fun first second =>
    ¬first.Joins second.action second.target

section Building

variable [Ord A]

theorem WellFormed.contains_of_mem {model : Model S A R} (wellFormed : model.WellFormed)
    {label : S} (member : label ∈ model.states.toList) : model.contains label = true := by
  obtain ⟨index, indexLt, rfl⟩ := List.mem_iff_getElem.mp member
  have numberEq := wellFormed.numbered index model.states.toList[index] (by simp)
  rw [← number?_isSome, numberEq]
  rfl

theorem WellFormed.exists_number {model : Model S A R}
    (wellFormed : model.WellFormed) {state : S}
    (known : model.contains state = true) :
    ∃ index label, model.number? state = some index ∧ model.states[index]? = some label ∧
      compare label state = .eq := by
  obtain ⟨label, member, same⟩ := wellFormed.listed state known
  obtain ⟨index, found⟩ := List.mem_iff_getElem?.mp member
  rw [Array.getElem?_toList] at found
  refine ⟨index, label, ?_, found, same⟩
  rw [← model.number?_congr same]
  exact wellFormed.numbered index label found

theorem wellFormed_empty : (empty : Model S A R).WellFormed where
  distinct := List.Pairwise.nil
  numbered index label listed := by simp [empty] at listed
  listed state known := by simp [empty, contains] at known
  closed state transition leaves := by simp [empty, outgoing] at leaves
  unique state := by simp [empty, outgoing]

theorem WellFormed.addState {model : Model S A R} (wellFormed : model.WellFormed) (state : S) :
    (model.addState state).WellFormed := by
  cases present : model.contains state with
  | true =>
      have unchanged : model.addState state = model := by simp [Model.addState, present]
      rw [unchanged]
      exact wellFormed
  | false =>
      have statesEq : (model.addState state).states = model.states.push state := by
        rw [addState_of_not_contains present]
      have fresh : ∀ label, model.contains label = true → compare label state ≠ .eq := by
        intro label known same
        rw [contains_congr model same, present] at known
        cases known
      refine ⟨?_, ?_, ?_, ?_, ?_⟩
      · rw [statesEq, Array.toList_push, List.pairwise_append]
        refine ⟨wellFormed.distinct, List.pairwise_singleton _ _, ?_⟩
        intro label member other memberOther
        rw [List.mem_singleton.mp memberOther]
        exact fresh label (wellFormed.contains_of_mem member)
      · intro index label listed
        rw [statesEq, Array.getElem?_push] at listed
        rw [addState_of_not_contains present]
        simp only [number?, TreeMap.getElem?_insert]
        split at listed
        · cases listed
          rename_i indexEq
          simp [indexEq, size]
        · have numberEq := wellFormed.numbered index label listed
          have known : model.contains label = true := by
            rw [← number?_isSome, numberEq]
            rfl
          rw [if_neg fun same => fresh label known (OrientedCmp.eq_symm same)]
          exact numberEq
      · intro other known
        rw [statesEq, Array.toList_push]
        rcases (contains_addState model state other).mp known with same | known
        · exact ⟨state, by simp, same⟩
        · obtain ⟨label, member, same⟩ := wellFormed.listed other known
          exact ⟨label, by simp [member], same⟩
      · intro other transition leaves
        rw [outgoing_addState] at leaves
        exact (contains_addState model state _).mpr
          (Or.inr (wellFormed.closed other transition leaves))
      · intro other
        rw [outgoing_addState]
        exact wellFormed.unique other

variable [Number R]

omit [TransOrd S] in
private theorem mem_joined {transitions : List (Transition S A R)}
    {added transition : Transition S A R} (member : transition ∈ joined transitions added) :
    transition = added ∨ ∃ original ∈ transitions, transition.target = original.target := by
  unfold joined at member
  split at member
  · obtain ⟨original, originalMem, -, targetEq⟩ := mem_accumulate member
    exact Or.inr ⟨original, originalMem, targetEq⟩
  · rcases List.mem_cons.mp member with isAdded | old
    · exact Or.inl isAdded
    · exact Or.inr ⟨transition, old, rfl⟩

variable [TransOrd A]

private theorem pairwise_joined {transitions : List (Transition S A R)}
    (added : Transition S A R)
    (unique : transitions.Pairwise fun first second =>
      ¬first.Joins second.action second.target) :
    (joined transitions added).Pairwise fun first second =>
      ¬first.Joins second.action second.target := by
  unfold joined
  split
  · refine List.Pairwise.map _ ?_ unique
    intro first second apart
    split <;> split <;> exact apart
  · rename_i absent
    refine List.Pairwise.cons ?_ unique
    intro other otherMem joins
    apply absent
    rw [List.any_eq_true]
    refine ⟨other, otherMem, ?_⟩
    rw [Transition.fits_eq_true_iff]
    exact ⟨OrientedCmp.eq_symm joins.1, OrientedCmp.eq_symm joins.2⟩

theorem WellFormed.addTransition {model : Model S A R} (wellFormed : model.WellFormed)
    (source : S) (action : A) (target : S) (probability weight : R) :
    (model.addTransition source action target probability weight).WellFormed := by
  have extended := (wellFormed.addState source).addState target
  obtain ⟨stored, same, outgoingEq⟩ :=
    outgoing_addTransition model source action target probability weight
  refine ⟨?_, ?_, ?_, ?_, ?_⟩
  · simpa [Model.addTransition] using extended.distinct
  · simpa [Model.addTransition] using extended.numbered
  · simpa [Model.addTransition] using extended.listed
  · intro other transition leaves
    rw [outgoingEq] at leaves
    rw [contains_addTransition]
    split at leaves
    · rcases mem_joined leaves with isAdded | ⟨original, originalMem, targetEq⟩
      · rw [isAdded]
        exact Or.inl (OrientedCmp.eq_symm same)
      · rw [targetEq]
        exact Or.inr (Or.inr (wellFormed.closed source original originalMem))
    · exact Or.inr (Or.inr (wellFormed.closed other transition leaves))
  · intro other
    rw [outgoingEq]
    split
    · exact pairwise_joined _ (wellFormed.unique source)
    · exact wellFormed.unique other

end Building

section Recording

variable {V : Type} (choose : S → Option V)

omit [TransOrd S] in
/-- Records something for a state, or nothing. -/
def record (table : TreeMap S V) (state : S) : TreeMap S V :=
  match choose state with
  | some value => table.insert state value
  | none => table

variable {choose}
  (respects : ∀ {first second : S}, compare first second = .eq → choose first = choose second)
include respects

theorem getElem?_record (table : TreeMap S V) (label state : S) :
    (record choose table label)[state]? =
      if sameLabel label state then (choose state).or table[state]? else table[state]? := by
  unfold record
  by_cases same : compare label state = .eq
  · rw [if_pos ((sameLabel_eq_true_iff _ _).mpr same), respects same]
    cases choose state with
    | none => rfl
    | some value =>
        have inserted : (table.insert label value)[state]? = some value := by
          rw [TreeMap.getElem?_insert, if_pos same]
        exact inserted
  · rw [if_neg fun test => same ((sameLabel_eq_true_iff _ _).mp test)]
    cases choose label with
    | none => rfl
    | some value => simp only [TreeMap.getElem?_insert, if_neg same]

/-- What is recorded for the states of a model, one after the other, is what was chosen for each of
them. -/
theorem WellFormed.getElem?_foldl_record [Ord A] {model : Model S A R}
    (wellFormed : model.WellFormed) (state : S) :
    (model.states.toList.foldl (record choose) ∅)[state]? =
      if model.contains state then choose state else none := by
  have gathered (states : List S) (table : TreeMap S V) :
      (states.foldl (record choose) table)[state]? =
        if states.any (sameLabel · state) then (choose state).or table[state]?
        else table[state]? := by
    induction states generalizing table with
    | nil => rfl
    | cons first rest ih =>
        rw [List.foldl_cons, ih, List.any_cons, getElem?_record respects]
        cases sameLabel first state with
        | true =>
            -- A state that is listed twice keeps what was recorded.
            rw [Bool.true_or, if_pos rfl]
            cases choose state <;> simp
        | false => rfl
  have listedIff : model.states.toList.any (sameLabel · state) = model.contains state := by
    rw [Bool.eq_iff_iff, List.any_eq_true]
    constructor
    · rintro ⟨listed, member, same⟩
      rw [← model.contains_congr ((sameLabel_eq_true_iff _ _).mp same)]
      exact wellFormed.contains_of_mem member
    · intro known
      obtain ⟨listed, member, same⟩ := wellFormed.listed state known
      exact ⟨listed, member, (sameLabel_eq_true_iff _ _).mpr same⟩
  rw [gathered, listedIff]
  simp

end Recording

end Model

end MarkovDecision
