import MarkovDecision.Proofs.Model.WellFormed

/-!
# Actions and their distributions

The table of actions of a state is gathered from its transitions.  In a well-formed model there
is one transition for each action and target, so an entry of the table is the probability of that
transition, added to the zero with which the entry was started.
-/

namespace MarkovDecision

open Std

/-- The sum of a list from left to right, started at its first number; the empty list has none. -/
def total? {R : Type} [Add R] : List R → Option R
  | [] => none
  | first :: rest => some (rest.foldl (· + ·) first)

/-- The probability that a table of actions gives to a target under an action. -/
def ActionTable.probability? {S A R : Type} [Ord S] [Ord A] (table : ActionTable S A R) (action : A)
    (target : S) : Option R :=
  table[action]?.bind (·[target]?)

section Offers

variable {S A R : Type} [Ord S] [Ord A] [TransOrd A] {table : ActionTable S A R}
  {offer : A × Distribution S R}

theorem ActionTable.getElem?_of_mem (offered : offer ∈ table.toList) :
    table[offer.1]? = some offer.2 :=
  TreeMap.getElem?_eq_some_iff_exists_compare_eq_eq_and_mem_toList.mpr
    ⟨offer.1, ReflCmp.compare_self, offered⟩

theorem ActionTable.contains_of_mem (offered : offer ∈ table.toList) :
    table.contains offer.1 = true := by
  rw [TreeMap.contains_eq_isSome_getElem?, ActionTable.getElem?_of_mem offered]
  rfl

theorem ActionTable.probability?_of_not_contains {action : A}
    (absent : ¬table.contains action = true) (target : S) :
    table.probability? action target = none := by
  rw [ActionTable.probability?, TreeMap.getElem?_eq_none_of_contains_eq_false
    (Bool.eq_false_iff.mpr absent), Option.bind_none]

theorem ActionTable.exists_offer {action : A} (present : table.contains action = true) :
    ∃ offer ∈ table.toList, compare offer.1 action = .eq ∧ table[action]? = some offer.2 := by
  rw [TreeMap.contains_eq_isSome_getElem?] at present
  obtain ⟨distribution, found⟩ := Option.isSome_iff_exists.mp present
  obtain ⟨key, sameAction, member⟩ :=
    TreeMap.getElem?_eq_some_iff_exists_compare_eq_eq_and_mem_toList.mp found
  exact ⟨(key, distribution), member, OrientedCmp.eq_symm sameAction, found⟩

theorem ActionTable.probability?_of_mem [TransOrd S] (offered : offer ∈ table.toList)
    {entry : S × R} (member : entry ∈ offer.2.toList) : table.probability? offer.1 entry.1 = some entry.2 := by
  rw [ActionTable.probability?, ActionTable.getElem?_of_mem offered, Option.bind_some]
  exact TreeMap.getElem?_eq_some_iff_exists_compare_eq_eq_and_mem_toList.mpr
    ⟨entry.1, ReflCmp.compare_self, member⟩

end Offers

namespace Model

variable {S A R : Type} [Ord S] [Ord A]

/-- The transition of a state under an action to a target. -/
def transition? (model : Model S A R) (source : S) (action : A) (target : S) :
    Option (Transition S A R) :=
  (model.outgoing source).find? (Transition.fits action target)

/-- The probability of the transition of a state under an action to a target. -/
def probability? (model : Model S A R) (source : S) (action : A) (target : S) : Option R :=
  (model.transition? source action target).map (·.probability)

/-- The probability and the weight of the transition of a state under an action to a target. -/
def edge? (model : Model S A R) (source : S) (action : A) (target : S) : Option (R × R) :=
  (model.transition? source action target).map fun transition =>
    (transition.probability, transition.weight)

theorem probability?_eq_edge? (model : Model S A R) (source : S) (action : A) (target : S) :
    model.probability? source action target = (model.edge? source action target).map (·.1) := by
  rw [Model.probability?, edge?, Option.map_map]
  rfl

theorem weight?_eq_edge? (model : Model S A R) (source : S) (action : A) (target : S) :
    model.weight? source action (some target) =
      (model.edge? source action target).map (·.2) := by
  rw [edge?, Option.map_map]
  rfl

theorem weight?_some (model : Model S A R) (source : S) (action : A) (target : S) :
    model.weight? source action (some target) =
      (model.transition? source action target).map (·.weight) :=
  rfl

theorem transition?_eq_some {model : Model S A R} {source : S} {action : A} {target : S}
    {transition : Transition S A R}
    (found : model.transition? source action target = some transition) :
    transition ∈ model.outgoing source ∧ transition.Joins action target :=
  ⟨List.mem_of_find?_eq_some found,
    (Transition.fits_eq_true_iff _ _ _).mp (List.find?_some found)⟩

/-- What holds of all weights, and of what is taken where there is none, holds of every reward. -/
theorem getD_weight?_of_outgoing {model : Model S A R} (holds : R → Prop) {fallback : R}
    (ofFallback : holds fallback)
    (ofWeights : ∀ state, ∀ transition ∈ model.outgoing state, holds transition.weight)
    (source : S) (action : A) (target : S) :
    holds ((model.weight? source action (some target)).getD fallback) := by
  rw [weight?_some]
  cases found : model.transition? source action target with
  | none => exact ofFallback
  | some transition => exact ofWeights source transition (transition?_eq_some found).1

variable [TransOrd S] [TransOrd A]

private theorem fits_congr {first second : A} {target other : S}
    (sameAction : compare first second = .eq) (sameTarget : compare target other = .eq) :
    (Transition.fits first target : Transition S A R → Bool) =
      Transition.fits second other := by
  funext transition
  rw [Bool.eq_iff_iff, Transition.fits_eq_true_iff, Transition.fits_eq_true_iff,
    Transition.Joins, Transition.Joins, TransCmp.congr_right sameAction,
    TransCmp.congr_right sameTarget]

theorem transition?_congr (model : Model S A R) {source origin : S} {first second : A}
    {target other : S} (sameSource : compare source origin = .eq)
    (sameAction : compare first second = .eq) (sameTarget : compare target other = .eq) :
    model.transition? source first target = model.transition? origin second other := by
  rw [transition?, transition?, outgoing_congr model sameSource,
    fits_congr sameAction sameTarget]

theorem edge?_congr (model : Model S A R) {source origin : S} {first second : A}
    {target other : S} (sameSource : compare source origin = .eq)
    (sameAction : compare first second = .eq) (sameTarget : compare target other = .eq) :
    model.edge? source first target = model.edge? origin second other := by
  rw [edge?, edge?, transition?_congr model sameSource sameAction sameTarget]

theorem WellFormed.transition?_of_mem {model : Model S A R} (wellFormed : model.WellFormed)
    {source : S} {transition : Transition S A R} (leaves : transition ∈ model.outgoing source)
    {action : A} {target : S} (joins : transition.Joins action target) :
    model.transition? source action target = some transition := by
  have unique := wellFormed.unique source
  unfold transition?
  generalize model.outgoing source = transitions at leaves unique
  induction transitions with
  | nil => cases leaves
  | cons first rest ih =>
      obtain ⟨apart, uniqueRest⟩ := List.pairwise_cons.mp unique
      rcases List.mem_cons.mp leaves with isFirst | isLater
      · rw [List.find?_cons_of_pos (by rw [Transition.fits_eq_true_iff, ← isFirst]; exact joins),
          isFirst]
      · rw [List.find?_cons_of_neg, ih isLater uniqueRest]
        rw [Transition.fits_eq_true_iff]
        intro firstJoins
        exact apart transition isLater
          ⟨TransCmp.eq_trans firstJoins.1 (OrientedCmp.eq_symm joins.1),
            TransCmp.eq_trans firstJoins.2 (OrientedCmp.eq_symm joins.2)⟩

section Adding

variable [Number R]

omit [TransOrd S] [TransOrd A] in
private theorem find?_accumulate (action : A) (target : S) (probability : R)
    (transitions : List (Transition S A R)) (other : A) (otherTarget : S) :
    (accumulate action target probability transitions).find?
        (Transition.fits other otherTarget) =
      (transitions.find? (Transition.fits other otherTarget)).map fun transition =>
        if transition.fits action target then
          { transition with probability := transition.probability + probability }
        else transition := by
  have unchanged (transition : Transition S A R) :
      Transition.fits other otherTarget
          (if transition.fits action target then
            { transition with probability := transition.probability + probability }
          else transition) =
        transition.fits other otherTarget := by
    split <;> rfl
  rw [accumulate, List.find?_map]
  exact congrArg (fun test => (transitions.find? test).map _) (funext unchanged)

/-- Looking for a transition after one more was added: the added one stands under its action and
target, with the probability of the one that was there before. -/
private theorem find?_joined (transitions : List (Transition S A R))
    (added : Transition S A R) (action : A) (target : S) :
    (joined transitions added).find? (Transition.fits action target) =
      if added.fits action target then
        some ((transitions.find? (Transition.fits action target)).elim added fun transition =>
          { transition with probability := transition.probability + added.probability })
      else transitions.find? (Transition.fits action target) := by
  by_cases joins : added.fits action target = true
  · obtain ⟨sameAction, sameTarget⟩ := (Transition.fits_eq_true_iff _ _ _).mp joins
    rw [if_pos joins, joined, fits_congr sameAction sameTarget]
    cases foundEq : transitions.find? (Transition.fits action target) with
    | some transition =>
        have present : transitions.any (Transition.fits action target) = true :=
          List.any_eq_true.mpr
            ⟨transition, List.mem_of_find?_eq_some foundEq, List.find?_some foundEq⟩
        have transitionFits : transition.fits action target = true := List.find?_some foundEq
        rw [if_pos present, find?_accumulate, foundEq, fits_congr sameAction sameTarget,
          Option.map_some, if_pos transitionFits]
        rfl
    | none =>
        have absent : ¬transitions.any (Transition.fits action target) = true := by
          rw [List.any_eq_true]
          rintro ⟨transition, member, fits⟩
          exact List.find?_eq_none.mp foundEq transition member fits
        rw [if_neg absent, List.find?_cons_of_pos joins]
        rfl
  · rw [if_neg joins, joined]
    split
    · rw [find?_accumulate]
      cases foundEq : transitions.find? (Transition.fits action target) with
      | none => rfl
      | some transition =>
          have transitionFits := (Transition.fits_eq_true_iff _ _ _).mp (List.find?_some foundEq)
          rw [Option.map_some, if_neg]
          rw [Transition.fits_eq_true_iff] at joins ⊢
          intro sameAsAdded
          exact joins
            ⟨TransCmp.eq_trans (OrientedCmp.eq_symm sameAsAdded.1) transitionFits.1,
              TransCmp.eq_trans (OrientedCmp.eq_symm sameAsAdded.2) transitionFits.2⟩
    · rw [List.find?_cons_of_neg joins]

theorem transition?_addTransition (model : Model S A R) (source : S) (action : A) (target : S)
    (probability weight : R) :
    ∃ stored, ∀ other otherAction otherTarget,
      (model.addTransition source action target probability weight).transition? other otherAction
          otherTarget =
        if compare source other = .eq ∧ compare action otherAction = .eq ∧
            compare target otherTarget = .eq then
          some ((model.transition? source action target).elim
            ⟨model.transitionCount, action, stored, probability, weight⟩ fun transition =>
              { transition with probability := transition.probability + probability })
        else model.transition? other otherAction otherTarget := by
  obtain ⟨stored, sameStored, outgoingEq⟩ :=
    outgoing_addTransition model source action target probability weight
  refine ⟨stored, fun other otherAction otherTarget => ?_⟩
  simp only [transition?, outgoingEq]
  by_cases sameSource : compare source other = .eq
  · rw [if_pos sameSource, find?_joined, ← outgoing_congr model sameSource]
    by_cases same : compare action otherAction = .eq ∧ compare target otherTarget = .eq
    · have joins : Transition.fits otherAction otherTarget
          (⟨model.transitionCount, action, stored, probability, weight⟩ : Transition S A R) :=
        (Transition.fits_eq_true_iff _ _ _).mpr ⟨same.1, TransCmp.eq_trans sameStored same.2⟩
      rw [if_pos joins, if_pos ⟨sameSource, same⟩, fits_congr same.1 same.2]
    · have apart : ¬Transition.fits otherAction otherTarget
          (⟨model.transitionCount, action, stored, probability, weight⟩ : Transition S A R) := by
        rw [Transition.fits_eq_true_iff]
        intro joins
        exact same ⟨joins.1, TransCmp.eq_trans (OrientedCmp.eq_symm sameStored) joins.2⟩
      rw [if_neg apart, if_neg fun all => same all.2]
  · rw [if_neg sameSource, if_neg fun all => sameSource all.1]

/-- An edge takes up a transition that is added to it: the probabilities add up, and the first
weight stays. -/
def takeUp (edge? : Option (R × R)) (probability weight : R) : R × R :=
  match edge? with
  | none => (probability, weight)
  | some (before, first) => (before + probability, first)

omit [Ord S] [Ord A] [TransOrd S] [TransOrd A] in
theorem foldl_takeUp_some (shares : List (R × R)) (edge : R × R) :
    shares.foldl (fun edge? share => some (takeUp edge? share.1 share.2)) (some edge) =
      some ((shares.map (·.1)).foldl (· + ·) edge.1, edge.2) := by
  induction shares generalizing edge with
  | nil => rfl
  | cons share shares ih => exact ih (takeUp (some edge) share.1 share.2)

omit [Ord S] [Ord A] [TransOrd S] [TransOrd A] in
/-- The probability of an edge is what it has taken up, added in that order. -/
theorem probability_foldl_takeUp (shares : List (R × R)) :
    (shares.foldl (fun edge? share => some (takeUp edge? share.1 share.2)) none).map (·.1) =
      total? (shares.map (·.1)) := by
  cases shares with
  | nil => rfl
  | cons share shares => exact congrArg (Option.map (·.1)) (foldl_takeUp_some shares share)

omit [Ord S] [Ord A] [TransOrd S] [TransOrd A] in
theorem weight_foldl_takeUp (shares : List (R × R)) :
    (shares.foldl (fun edge? share => some (takeUp edge? share.1 share.2)) none).map (·.2) =
      (shares.map (·.2)).head? := by
  cases shares with
  | nil => rfl
  | cons share shares => exact congrArg (Option.map (·.2)) (foldl_takeUp_some shares share)

theorem edge?_addTransition (model : Model S A R) (source : S) (action : A) (target : S)
    (probability weight : R) (other : S) (otherAction : A) (otherTarget : S) :
    (model.addTransition source action target probability weight).edge? other otherAction
        otherTarget =
      if compare source other = .eq ∧ compare action otherAction = .eq ∧
          compare target otherTarget = .eq then
        some (takeUp (model.edge? source action target) probability weight)
      else model.edge? other otherAction otherTarget := by
  obtain ⟨stored, transitionEq⟩ :=
    transition?_addTransition model source action target probability weight
  simp only [edge?, transitionEq]
  split
  · cases model.transition? source action target <;> rfl
  · rfl

omit [TransOrd A] [Number R] in
@[simp]
theorem transition?_addState (model : Model S A R) (state source : S) (action : A) (target : S) :
    (model.addState state).transition? source action target =
      model.transition? source action target := by
  simp [transition?]

omit [TransOrd A] [Number R] in
@[simp]
theorem edge?_addState (model : Model S A R) (state source : S) (action : A) (target : S) :
    (model.addState state).edge? source action target = model.edge? source action target := by
  simp [edge?]

end Adding

section Tables

variable [Number R]

theorem probability?_addToActions (table : ActionTable S A R) (transition : Transition S A R)
    (action : A) (target : S) :
    (addToActions table transition).probability? action target =
      if transition.fits action target then
        some ((table.probability? action target).getD 0 + transition.probability)
      else table.probability? action target := by
  simp only [addToActions, ActionTable.probability?, TreeMap.getElem?_alter]
  by_cases sameAction : compare transition.action action = .eq
  · rw [if_pos sameAction, Option.bind_some, TreeMap.getElem?_alter,
      ← TreeMap.getElem?_congr sameAction]
    by_cases sameTarget : compare transition.target target = .eq
    · rw [if_pos sameTarget, TreeMap.getElem?_congr sameTarget, if_pos]
      · cases table[transition.action]? <;> simp
      · simp [Transition.Joins, sameAction, sameTarget]
    · rw [if_neg sameTarget, if_neg]
      · cases table[transition.action]? <;> simp
      · simp [Transition.Joins, sameTarget]
  · rw [if_neg sameAction, if_neg]
    simp [Transition.Joins, sameAction]

/-- Gathering transitions that differ in action or target adds each to the entry that was there
before. -/
private theorem probability?_foldl_addToActions (transitions : List (Transition S A R))
    (unique : transitions.Pairwise fun first second =>
      ¬first.Joins second.action second.target)
    (table : ActionTable S A R) (action : A) (target : S) :
    (transitions.foldl addToActions table).probability? action target =
      match transitions.find? (Transition.fits action target) with
      | some transition =>
        some ((table.probability? action target).getD 0 + transition.probability)
      | none => table.probability? action target := by
  induction transitions generalizing table with
  | nil => rfl
  | cons first rest ih =>
      obtain ⟨apart, uniqueRest⟩ := List.pairwise_cons.mp unique
      rw [List.foldl_cons, ih uniqueRest, probability?_addToActions]
      by_cases joins : first.fits action target = true
      · have restNone : rest.find? (Transition.fits action target) = none := by
          rw [List.find?_eq_none]
          intro other member otherJoins
          rw [Transition.fits_eq_true_iff] at joins otherJoins
          exact apart other member
            ⟨TransCmp.eq_trans joins.1 (OrientedCmp.eq_symm otherJoins.1),
              TransCmp.eq_trans joins.2 (OrientedCmp.eq_symm otherJoins.2)⟩
        rw [restNone, List.find?_cons_of_pos joins, if_pos joins]
      · rw [List.find?_cons_of_neg joins, if_neg joins]

theorem WellFormed.probability?_actions {model : Model S A R} (wellFormed : model.WellFormed)
    (source : S) (action : A) (target : S) :
    (model.actions source).probability? action target =
      (model.probability? source action target).map (0 + ·) := by
  rw [actions, probability?_foldl_addToActions _ (wellFormed.unique source)]
  have emptyEntry : ActionTable.probability? (∅ : ActionTable S A R) action target = none := by
    simp [ActionTable.probability?]
  rw [emptyEntry, Model.probability?, transition?]
  cases (model.outgoing source).find? (Transition.fits action target) <;> rfl

theorem WellFormed.getElem?_distribution {model : Model S A R} (wellFormed : model.WellFormed)
    {source : S} {action : A} {distribution : Distribution S R}
    (offered : (model.actions source)[action]? = some distribution) (target : S) :
    distribution[target]? = (model.probability? source action target).map (0 + ·) := by
  rw [← wellFormed.probability?_actions, ActionTable.probability?, offered, Option.bind_some]

theorem WellFormed.exists_transition?_eq {model : Model S A R} (wellFormed : model.WellFormed)
    {source : S} {action : A} {distribution : Distribution S R}
    (offered : (model.actions source)[action]? = some distribution) {target : S}
    (contained : distribution.contains target = true) :
    ∃ transition, model.transition? source action target = some transition := by
  rw [TreeMap.contains_eq_isSome_getElem?, wellFormed.getElem?_distribution offered,
    Model.probability?, Option.map_map, Option.isSome_map] at contained
  exact Option.isSome_iff_exists.mp contained

theorem WellFormed.exists_transition_of_entry {model : Model S A R}
    (wellFormed : model.WellFormed) {source : S} {offer : A × Distribution S R}
    (offered : offer ∈ (model.actions source).toList) {entry : S × R}
    (member : entry ∈ offer.2.toList) :
    ∃ transition ∈ model.outgoing source, transition.Joins offer.1 entry.1 := by
  have found := ActionTable.probability?_of_mem offered member
  rw [wellFormed.probability?_actions, Model.probability?, Option.map_map,
    Option.map_eq_some_iff] at found
  obtain ⟨transition, found, -⟩ := found
  exact ⟨transition, transition?_eq_some found⟩

omit [TransOrd S] in
theorem contains_actions (model : Model S A R) (source : S) (action : A) :
    (model.actions source).contains action = true ↔
      ∃ transition ∈ model.outgoing source, compare transition.action action = .eq := by
  have gathered (transitions : List (Transition S A R)) (table : ActionTable S A R) :
      (transitions.foldl addToActions table).contains action = true ↔
        table.contains action = true ∨
          ∃ transition ∈ transitions, compare transition.action action = .eq := by
    induction transitions generalizing table with
    | nil => simp
    | cons first rest ih =>
        rw [List.foldl_cons, ih, addToActions, TreeMap.contains_alter]
        by_cases same : compare first.action action = .eq <;> simp [same]
  simpa [actions] using gathered (model.outgoing source) ∅

theorem not_contains_actions {model : Model S A R} {state : S}
    (unknown : ¬model.contains state = true) (action : A) :
    ¬(model.actions state).contains action = true := by
  rw [contains_actions, outgoing_eq_nil_of_not_contains (Bool.eq_false_iff.mpr unknown)]
  simp

theorem contains_actions_iff_edge? (model : Model S A R) (source : S)
    (action : A) :
    (model.actions source).contains action = true ↔
      ∃ target edge, model.edge? source action target = some edge := by
  rw [contains_actions]
  constructor
  · rintro ⟨transition, leaves, sameAction⟩
    have fits : transition.fits action transition.target = true :=
      (Transition.fits_eq_true_iff _ _ _).mpr ⟨sameAction, ReflCmp.compare_self⟩
    obtain ⟨found, foundEq⟩ := Option.isSome_iff_exists.mp
      (List.find?_isSome.mpr ⟨transition, leaves, fits⟩)
    exact ⟨transition.target, (found.probability, found.weight), by
      rw [edge?, transition?, foundEq, Option.map_some]⟩
  · rintro ⟨target, edge, edgeEq⟩
    obtain ⟨transition, found, -⟩ := Option.map_eq_some_iff.mp edgeEq
    obtain ⟨leaves, joins⟩ := transition?_eq_some found
    exact ⟨transition, leaves, joins.1⟩

omit [TransOrd A] in
theorem actions_congr (model : Model S A R) {first second : S}
    (same : compare first second = .eq) : model.actions first = model.actions second := by
  rw [actions, actions, outgoing_congr model same]

omit [TransOrd A] in
theorem contains_of_offer {model : Model S A R} {state : S} {offer : A × Distribution S R}
    (offered : offer ∈ (model.actions state).toList) : model.contains state = true := by
  cases known : model.contains state with
  | true => rfl
  | false =>
      rw [actions, outgoing_eq_nil_of_not_contains known] at offered
      cases offered

omit [TransOrd A] in
theorem actions_toList_eq_nil {model : Model S A R} {state : S}
    (unknown : ¬model.contains state = true) : (model.actions state).toList = [] :=
  List.eq_nil_iff_forall_not_mem.mpr fun _ offered => unknown (contains_of_offer offered)

end Tables

end Model

end MarkovDecision
