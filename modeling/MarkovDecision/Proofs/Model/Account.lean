import MarkovDecision.Model.Connectivity
import MarkovDecision.Proofs.Model.Construction

/-!
# What a construction holds

Calls that mention states and add transitions may come in any order, mention labels again and add to
the same edge again.  `Model.Accounts` says what the model that they build answers to each query, in
terms of the calls alone: its states are the labels in the order of their first mention, and the
edge of a triple holds the probabilities of the calls that add to it and the weight of the first of
them.  Calls that come later leave the numbers of the states as they are.
-/

namespace MarkovDecision

open Std (TransOrd TransCmp OrientedCmp ReflCmp)

namespace Call

variable {S A R : Type}

/-- The labels that a call mentions, in order. -/
def mentioned : Call S A R → List S
  | .state label => [label]
  | .transition source _ target _ _ => [source, target]

theorem mentions_iff [Ord S] (call : Call S A R) (state : S) :
    call.Mentions state ↔ ∃ label ∈ call.mentioned, compare label state = .eq := by
  cases call with
  | state label => simp [Mentions, mentioned]
  | transition source action target probability weight => simp [Mentions, mentioned, or_comm]

end Call

namespace Model

variable {S A R : Type} [Ord S] [Ord A] [Number R]

/-- Every query about a label has the empty answer. -/
structure Ignores (model : Model S A R) (state : S) : Prop where
  number?_eq : model.number? state = none
  outgoing_eq : model.outgoing state = []
  actions_eq : model.actions state = ∅
  weight?_eq : ∀ action target?, model.weight? state action target? = none
  connected?_from : ∀ target, model.connected? state target = none
  connected?_to : ∀ source, model.connected? source state = none

/-- A model answers every query by what the calls have mentioned and added. -/
structure Accounts (model : Model S A R) (calls : List (Call S A R)) : Prop where
  /-- The states are listed in the order of their first mention. -/
  states_eq : model.states.toList = (calls.flatMap Call.mentioned).eraseDupsBy sameLabel
  contains_iff : ∀ state, model.contains state = true ↔
    ∃ label ∈ calls.flatMap Call.mentioned, compare label state = .eq
  /-- A label has the number of the one listed state that it names. -/
  number?_eq_some_iff : ∀ state index, model.number? state = some index ↔
    ∃ label, model.states[index]? = some label ∧ compare label state = .eq
  /-- There is one edge at most for each source, action and target. -/
  countP_le_one : ∀ source action target,
    (model.outgoing source).countP (Transition.fits action target) ≤ 1
  /-- There is an edge if some call has added to it. -/
  probability?_isSome_iff : ∀ source action target,
    ((model.actions source).probability? action target).isSome = true ↔
      ∃ call ∈ calls, (call.share? source action target).isSome = true
  /-- The probability of an edge is the sum of what the calls have added to it, in their order,
  added to the zero with which an entry starts. -/
  probability?_eq : ∀ source action target,
    (model.actions source).probability? action target =
      (total? ((calls.filterMap (Call.share? source action target)).map (·.1))).map (0 + ·)
  /-- The weight of an edge is that of the first call that has added to it. -/
  weight?_eq : ∀ source action target, model.weight? source action (some target) =
    ((calls.filterMap (Call.share? source action target)).map (·.2)).head?
  /-- An action has a weight if it has an edge. -/
  anyWeight_isSome_iff : ∀ source action, (model.weight? source action none).isSome = true ↔
    ∃ target, (model.weight? source action (some target)).isSome = true
  /-- The weight of an action is that of one of its edges. -/
  anyWeight_eq : ∀ source action weight, model.weight? source action none = some weight →
    ∃ target, model.weight? source action (some target) = some weight
  /-- Nothing is known of a label that no call mentions. -/
  ignores : ∀ state, (∀ label ∈ calls.flatMap Call.mentioned, compare label state ≠ .eq) →
    model.Ignores state

section Numbering

variable [TransOrd S]

omit [Number R] in
theorem WellFormed.loop_addState {model : Model S A R} (wellFormed : model.WellFormed) (label : S)
    (rest : List S) :
    List.eraseDupsBy.loop sameLabel (label :: rest) model.states.toList.reverse =
      List.eraseDupsBy.loop sameLabel rest (model.addState label).states.toList.reverse := by
  have listedIff : model.states.toList.reverse.any (sameLabel label) = model.contains label := by
    rw [Bool.eq_iff_iff, List.any_reverse, List.any_eq_true]
    constructor
    · rintro ⟨listed, member, same⟩
      rw [model.contains_congr ((sameLabel_eq_true_iff _ _).mp same)]
      exact wellFormed.contains_of_mem member
    · intro known
      obtain ⟨listed, member, same⟩ := wellFormed.listed label known
      exact ⟨listed, member, (sameLabel_eq_true_iff _ _).mpr (OrientedCmp.eq_symm same)⟩
  rw [List.eraseDupsBy.loop, listedIff]
  cases present : model.contains label with
  | true =>
      have unchanged : model.addState label = model := by simp [Model.addState, present]
      rw [unchanged]
  | false =>
      rw [addState_of_not_contains present, Array.toList_push, List.reverse_append,
        List.reverse_singleton]
      rfl

theorem WellFormed.loop_applyTo {model : Model S A R} (wellFormed : model.WellFormed)
    (call : Call S A R) (rest : List S) :
    List.eraseDupsBy.loop sameLabel (call.mentioned ++ rest) model.states.toList.reverse =
      List.eraseDupsBy.loop sameLabel rest (call.applyTo model).states.toList.reverse := by
  cases call with
  | state label => exact wellFormed.loop_addState label rest
  | transition source action target probability weight =>
      rw [Call.applyTo, Model.addTransition, states_connect,
        ← (wellFormed.addState source).loop_addState, ← wellFormed.loop_addState]
      rfl

variable [TransOrd A]

/-- The states of a construction stand in the order of their first mention. -/
theorem states_construct (calls : List (Call S A R)) :
    (construct calls).states.toList = (calls.flatMap Call.mentioned).eraseDupsBy sameLabel := by
  have built (model : Model S A R) (wellFormed : model.WellFormed) :
      List.eraseDupsBy.loop sameLabel (calls.flatMap Call.mentioned) model.states.toList.reverse =
        (calls.foldl Call.applyTo model).states.toList := by
    induction calls generalizing model with
    | nil => exact model.states.toList.reverse_reverse
    | cons call calls ih =>
        rw [List.flatMap_cons, wellFormed.loop_applyTo, List.foldl_cons]
        exact ih (call.applyTo model) (wellFormed.applyTo call)
  exact (built empty wellFormed_empty).symm

omit [TransOrd A] [Number R] in
theorem WellFormed.number?_eq_some_iff {model : Model S A R} (wellFormed : model.WellFormed)
    (state : S) (index : Nat) : model.number? state = some index ↔
      ∃ label, model.states[index]? = some label ∧ compare label state = .eq := by
  constructor
  · intro hasNumber
    have known : model.contains state = true := by
      rw [← number?_isSome, hasNumber]
      rfl
    obtain ⟨position, label, numberEq, listed, same⟩ := wellFormed.exists_number known
    rw [hasNumber, Option.some.injEq] at numberEq
    exact ⟨label, numberEq ▸ listed, same⟩
  · rintro ⟨label, listed, same⟩
    rw [← model.number?_congr same]
    exact wellFormed.numbered index label listed

omit [TransOrd S] [TransOrd A] [Number R] [Ord A] in
theorem states_prefix_addState (model : Model S A R) (state : S) :
    model.states.toList <+: (model.addState state).states.toList := by
  cases present : model.contains state with
  | true => simp [addState, present]
  | false =>
      rw [addState_of_not_contains present, Array.toList_push]
      exact List.prefix_append _ _

omit [TransOrd S] [TransOrd A] in
/-- A call lists states behind those that are listed. -/
theorem states_prefix_applyTo (model : Model S A R) (call : Call S A R) :
    model.states.toList <+: (call.applyTo model).states.toList := by
  cases call with
  | state label => exact states_prefix_addState model label
  | transition source action target probability weight =>
      rw [Call.applyTo, addTransition, states_connect]
      exact (states_prefix_addState model source).trans (states_prefix_addState _ target)

omit [TransOrd S] [TransOrd A] in
theorem states_prefix_construct (calls later : List (Call S A R)) :
    (construct calls).states.toList <+: (construct (calls ++ later)).states.toList := by
  rw [construct, construct, List.foldl_append]
  generalize calls.foldl Call.applyTo empty = model
  induction later generalizing model with
  | nil => exact List.prefix_refl _
  | cons call later ih => exact (states_prefix_applyTo model call).trans (ih (call.applyTo model))

/-- Calls that come later leave the numbers of states as they are. -/
theorem number?_construct_append {calls : List (Call S A R)} {state : S} {index : Nat}
    (hasNumber : (construct calls).number? state = some index) (later : List (Call S A R)) :
    (construct (calls ++ later)).number? state = some index := by
  obtain ⟨label, listed, same⟩ :=
    ((wellFormed_construct calls).number?_eq_some_iff state index).mp hasNumber
  refine ((wellFormed_construct (calls ++ later)).number?_eq_some_iff state index).mpr
    ⟨label, ?_, same⟩
  rw [← Array.getElem?_toList] at listed ⊢
  obtain ⟨added, statesEq⟩ := states_prefix_construct calls later
  rw [← statesEq, List.getElem?_append_left (List.getElem?_eq_some_iff.mp listed).1]
  exact listed

end Numbering

section Queries

variable [TransOrd S] [TransOrd A]

omit [Number R] in
theorem WellFormed.countP_fits_le_one {model : Model S A R} (wellFormed : model.WellFormed)
    (source : S) (action : A) (target : S) :
    (model.outgoing source).countP (Transition.fits action target) ≤ 1 := by
  have apart := (wellFormed.unique source).filter (Transition.fits action target)
  have joining : ∀ transition ∈ (model.outgoing source).filter (Transition.fits action target),
      transition.Joins action target := fun transition member =>
    (Transition.fits_eq_true_iff _ _ _).mp (List.mem_filter.mp member).2
  rw [List.countP_eq_length_filter]
  match fitting : (model.outgoing source).filter (Transition.fits action target) with
  | [] => exact Nat.zero_le 1
  | [_] => exact Nat.le_refl 1
  | first :: second :: _ =>
      rw [fitting] at apart joining
      obtain ⟨sameAction, sameTarget⟩ := joining first (by simp)
      obtain ⟨otherAction, otherTarget⟩ := joining second (by simp)
      exact (List.rel_of_pairwise_cons apart (by simp)
        ⟨TransCmp.eq_trans sameAction (OrientedCmp.eq_symm otherAction),
          TransCmp.eq_trans sameTarget (OrientedCmp.eq_symm otherTarget)⟩).elim

omit [Number R] in
theorem WellFormed.weight?_none_eq_some {model : Model S A R} (wellFormed : model.WellFormed)
    {source : S} {action : A} {weight : R}
    (found : model.weight? source action none = some weight) :
    ∃ target, model.weight? source action (some target) = some weight := by
  obtain ⟨transition, foundEq, rfl⟩ := Option.map_eq_some_iff.mp found
  have isUnder := List.find?_some foundEq
  rw [Option.all_none, Bool.and_true, Transition.isUnder_eq_true_iff] at isUnder
  refine ⟨transition.target, ?_⟩
  rw [weight?_some, wellFormed.transition?_of_mem (List.mem_of_find?_eq_some foundEq)
    ⟨isUnder, ReflCmp.compare_self⟩, Option.map_some]

omit [Number R] [TransOrd S] [TransOrd A] in
theorem isSome_weight?_none {model : Model S A R} {source target : S} {action : A}
    (hasEdge : (model.weight? source action (some target)).isSome = true) :
    (model.weight? source action none).isSome = true := by
  rw [weight?, Option.isSome_map, List.find?_isSome] at hasEdge ⊢
  obtain ⟨transition, leaves, fits⟩ := hasEdge
  rw [Bool.and_eq_true] at fits
  exact ⟨transition, leaves, by simpa using fits.1⟩

omit [TransOrd A] in
theorem ignores_of_not_contains {model : Model S A R} {state : S}
    (unknown : model.contains state = false) : model.Ignores state where
  number?_eq := by
    rw [← Option.isNone_iff_eq_none, ← Option.not_isSome, number?_isSome, unknown]
    rfl
  outgoing_eq := outgoing_eq_nil_of_not_contains unknown
  actions_eq := by
    rw [actions, outgoing_eq_nil_of_not_contains unknown]
    rfl
  weight?_eq action target? := by
    rw [weight?, outgoing_eq_nil_of_not_contains unknown]
    rfl
  connected?_from target := by simp [connected?, unknown]
  connected?_to source := by simp [connected?, unknown]

omit [TransOrd A] in
theorem contains_construct_iff (calls : List (Call S A R)) (state : S) :
    (construct calls).contains state = true ↔
      ∃ label ∈ calls.flatMap Call.mentioned, compare label state = .eq := by
  simp only [contains_construct, Call.mentions_iff, List.mem_flatMap]
  constructor
  · rintro ⟨call, member, label, mentioned, same⟩
    exact ⟨label, ⟨call, member, mentioned⟩, same⟩
  · rintro ⟨label, ⟨call, member, mentioned⟩, same⟩
    exact ⟨call, member, label, mentioned, same⟩

theorem probability?_construct (calls : List (Call S A R)) (source : S) (action : A) (target : S) :
    ((construct calls).actions source).probability? action target =
      (total? ((calls.filterMap (Call.share? source action target)).map (·.1))).map (0 + ·) := by
  rw [(wellFormed_construct calls).probability?_actions, probability?_eq_edge?, edge?_construct,
    probability_foldl_takeUp]

theorem isSome_probability?_construct (calls : List (Call S A R)) (source : S) (action : A)
    (target : S) :
    (((construct calls).actions source).probability? action target).isSome = true ↔
      ∃ call ∈ calls, (call.share? source action target).isSome = true := by
  have someShare : (∃ call ∈ calls, (call.share? source action target).isSome = true) ↔
      calls.filterMap (Call.share? source action target) ≠ [] := by
    simp [List.filterMap_eq_nil_iff, Option.isSome_iff_ne_none]
  rw [probability?_construct, someShare, Option.isSome_map]
  cases calls.filterMap (Call.share? source action target) <;> simp [total?]

/-- A construction answers by its calls. -/
theorem accounts_construct (calls : List (Call S A R)) : (construct calls).Accounts calls := by
  have wellFormed := wellFormed_construct calls
  exact {
    states_eq := states_construct calls
    contains_iff := contains_construct_iff calls
    number?_eq_some_iff := wellFormed.number?_eq_some_iff
    countP_le_one := wellFormed.countP_fits_le_one
    probability?_isSome_iff := isSome_probability?_construct calls
    probability?_eq := probability?_construct calls
    weight?_eq := by
      intro source action target
      rw [weight?_eq_edge?, edge?_construct, weight_foldl_takeUp]
    anyWeight_isSome_iff := by
      intro source action
      constructor
      · intro hasWeight
        obtain ⟨weight, found⟩ := Option.isSome_iff_exists.mp hasWeight
        obtain ⟨target, foundToo⟩ := wellFormed.weight?_none_eq_some found
        exact ⟨target, Option.isSome_iff_exists.mpr ⟨weight, foundToo⟩⟩
      · rintro ⟨target, hasEdge⟩
        exact isSome_weight?_none hasEdge
    anyWeight_eq := fun _ _ _ found => wellFormed.weight?_none_eq_some found
    ignores := by
      intro state unmentioned
      apply ignores_of_not_contains
      rw [Bool.eq_false_iff, Ne, contains_construct_iff]
      rintro ⟨label, mentioned, same⟩
      exact unmentioned label mentioned same }

/-- A construction answers every query by its calls, and calls that come later leave the numbers of
its states as they are. -/
theorem construct_accounts (calls : List (Call S A R)) :
    (construct calls).Accounts calls ∧
      ∀ later : List (Call S A R),
        (construct calls).states.toList <+: (construct (calls ++ later)).states.toList ∧
          ∀ state index, (construct calls).number? state = some index →
            (construct (calls ++ later)).number? state = some index :=
  ⟨accounts_construct calls, fun later => ⟨states_prefix_construct calls later,
    fun _ _ hasNumber => number?_construct_append hasNumber later⟩⟩

/-- Calls that add to an edge twice, add a loop, and mention a label again. -/
def loopingCalls : List (Call Nat Nat Rat) :=
  [.transition 5 0 3 (1 / 4) (-1), .transition 5 0 5 (1 / 2) (-2), .state 3,
    .transition 5 0 3 (1 / 4) (-7)]

/-- The calls number the label 5 before the label 3, and their edge from one to the other has the
weight of the first call that added to it. -/
theorem construct_accounts_looping :
    (construct loopingCalls).states = #[5, 3] ∧
      (construct loopingCalls).weight? 5 0 (some 3) = some (-1) ∧
      (construct loopingCalls).Accounts loopingCalls ∧
      (construct (loopingCalls ++ [.state 0])).number? 5 = some 0 := by
  obtain ⟨accounts, later⟩ := construct_accounts loopingCalls
  exact ⟨by decide, by decide, accounts, (later [.state 0]).2 5 0 (by decide)⟩

end Queries

end Model

end MarkovDecision
