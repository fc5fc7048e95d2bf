import MarkovDecision.Proofs.Folds
import MarkovDecision.Proofs.Model.Actions
import MarkovDecision.Proofs.Unfolding.Order

/-!
# What becomes of a pair

One step adds a transition of a pair to the unfolded model: it leads to the next pair or, if that
is not kept, to `bottom`.  `Expansion` says what all steps of a pair do together, as far as the
nodes, the edges and the work list are concerned; `addTerminal` gives a target its loops.
-/

namespace MarkovDecision

open Std

namespace Unfolding

variable {S A R : Type} [Ord S] [Ord A] [Number R]

/-- The node that a transition leads to from a value. -/
def destination (keep : S → R → Bool) (value : R) (transition : Transition S A R) :
    UnfoldedState S R :=
  if keep transition.target (value + transition.weight) then
    .pair transition.target (value + transition.weight)
  else .bottom

/-- Whether a transition belongs to the edge under an action to a node. -/
def contributes (keep : S → R → Bool) (value : R) (action : UnfoldedAction A)
    (target : UnfoldedState S R) (transition : Transition S A R) : Bool :=
  sameLabel (.take transition.action) action
    && sameLabel (destination keep value transition) target

def takeIn (edge? : Option (R × R)) (transition : Transition S A R) : Option (R × R) :=
  some (Model.takeUp edge? transition.probability transition.weight)

/-- The node of an entry of the work list. -/
def node (entry : S × R) : UnfoldedState S R :=
  .pair entry.1 entry.2

variable [TransOrd S] [TransOrd A] [LawfulNumber R]

section Step

variable {keep : S → R → Bool} {limit : Nat} {here : UnfoldedState S R} {value : R}
  {before after : Progress S A R} {transition : Transition S A R}

omit [TransOrd S] [TransOrd A] [LawfulNumber R] in
theorem addStep_eq_ok (stepped : addStep keep limit here value before transition = .ok after) :
    after.targets = before.targets ∧
      ((after.waiting = before.waiting ∧
          (keep transition.target (value + transition.weight) = true →
            before.model.contains (destination keep value transition) = true) ∧
          after.model = before.model.addTransition here (.take transition.action)
            (destination keep value transition) transition.probability transition.weight) ∨
        (after.waiting = (transition.target, value + transition.weight) :: before.waiting ∧
          keep transition.target (value + transition.weight) = true ∧
          before.model.contains (destination keep value transition) = false ∧
          after.model = (before.model.addState (destination keep value transition)).addTransition
            here (.take transition.action) (destination keep value transition)
            transition.probability transition.weight)) := by
  obtain ⟨model, targets, waiting⟩ := before
  unfold addStep at stepped
  dsimp only at stepped
  unfold destination
  split at stepped
  · rename_i kept
    rw [if_pos kept]
    split at stepped
    · rename_i known
      cases stepped
      exact ⟨rfl, Or.inl ⟨rfl, fun _ => known, rfl⟩⟩
    · rename_i unknown
      split at stepped
      · cases stepped
      · cases stepped
        exact ⟨rfl, Or.inr ⟨rfl, kept, Bool.eq_false_iff.mpr unknown, rfl⟩⟩
  · rename_i dropped
    cases stepped
    rw [if_neg dropped]
    exact ⟨rfl, Or.inl ⟨rfl, fun kept => (dropped kept).elim, rfl⟩⟩

theorem wellFormed_addStep (stepped : addStep keep limit here value before transition = .ok after)
    (wellFormed : before.model.WellFormed) : after.model.WellFormed := by
  obtain ⟨-, ⟨-, -, modelEq⟩ | ⟨-, -, -, modelEq⟩⟩ := addStep_eq_ok stepped
  · rw [modelEq]
    exact wellFormed.addTransition _ _ _ _ _
  · rw [modelEq]
    exact (wellFormed.addState _).addTransition _ _ _ _ _

omit [TransOrd A] in
theorem contains_addStep (stepped : addStep keep limit here value before transition = .ok after)
    (label : UnfoldedState S R) :
    after.model.contains label = true ↔
      compare (destination keep value transition) label = .eq ∨ compare here label = .eq ∨
        before.model.contains label = true := by
  obtain ⟨-, ⟨-, -, modelEq⟩ | ⟨-, -, -, modelEq⟩⟩ := addStep_eq_ok stepped
  · rw [modelEq, Model.contains_addTransition]
  · rw [modelEq, Model.contains_addTransition, Model.contains_addState]
    tauto

theorem edge?_addStep (stepped : addStep keep limit here value before transition = .ok after)
    (label : UnfoldedState S R) (action : UnfoldedAction A) (target : UnfoldedState S R) :
    after.model.edge? label action target =
      if compare here label = .eq ∧ compare (.take transition.action) action = .eq ∧
          compare (destination keep value transition) target = .eq then
        takeIn (before.model.edge? here (.take transition.action)
          (destination keep value transition)) transition
      else before.model.edge? label action target := by
  obtain ⟨-, ⟨-, -, modelEq⟩ | ⟨-, -, -, modelEq⟩⟩ := addStep_eq_ok stepped
  · rw [modelEq, Model.edge?_addTransition, takeIn]
  · rw [modelEq, Model.edge?_addTransition, Model.edge?_addState, Model.edge?_addState, takeIn]

end Step

/-- The pairs that the steps along some transitions put on the work list: they are new, are told
apart, and cover the destinations that were not there before. -/
structure NewPairs (keep : S → R → Bool) (value : R) (transitions : List (Transition S A R))
    (before : Progress S A R) (found : List (S × R)) : Prop where
  isNew : ∀ entry ∈ found, before.model.contains (node entry) = false
  isNext : ∀ entry ∈ found, ∃ transition ∈ transitions,
    keep transition.target (value + transition.weight) = true ∧
      entry = (transition.target, value + transition.weight)
  distinct : found.Pairwise fun first second => compare (node first) (node second) ≠ .eq
  covers : ∀ transition ∈ transitions, keep transition.target (value + transition.weight) = true →
    before.model.contains (destination keep value transition) = true ∨
      ∃ entry ∈ found, compare (node entry) (destination keep value transition) = .eq

section Earlier

variable {keep : S → R → Bool} {limit : Nat} {here : UnfoldedState S R} {value : R}
  {before middle : Progress S A R} {transition : Transition S A R}
  {transitions : List (Transition S A R)} {found : List (S × R)}
  (first : addStep keep limit here value before transition = .ok middle)
  (later : NewPairs keep value transitions middle found)
include first later

omit [TransOrd A] in
theorem NewPairs.isNew_before : ∀ entry ∈ found, before.model.contains (node entry) = false := by
  intro entry member
  rw [Bool.eq_false_iff]
  intro old
  have present := (contains_addStep first (node entry)).mpr (Or.inr (Or.inr old))
  rw [later.isNew entry member] at present
  cases present

omit [TransOrd A] in
/-- A destination of later steps is that of the first step, was there before, or is found later. -/
theorem NewPairs.covers_before (known : before.model.contains here = true) :
    ∀ other ∈ transitions, keep other.target (value + other.weight) = true →
      (compare (destination keep value transition) (destination keep value other) = .eq ∨
        before.model.contains (destination keep value other) = true) ∨
          ∃ entry ∈ found, compare (node entry) (destination keep value other) = .eq := by
  intro other member kept
  rcases later.covers other member kept with present | isFound
  · rcases (contains_addStep first _).mp present with isNext | isHere | old
    · exact Or.inl (Or.inl isNext)
    · exact Or.inl (Or.inr ((before.model.contains_congr isHere).symm.trans known))
    · exact Or.inl (Or.inr old)
  · exact Or.inr isFound

omit [TransOrd A] in
theorem NewPairs.cons (known : before.model.contains here = true) :
    ∃ all, all ++ before.waiting = found ++ middle.waiting ∧
      NewPairs keep value (transition :: transitions) before all := by
  have stillNew := later.isNew_before first
  have coveredLater := later.covers_before first known
  have isNext : ∀ entry ∈ found, ∃ other ∈ transition :: transitions,
      keep other.target (value + other.weight) = true ∧
        entry = (other.target, value + other.weight) := by
    intro entry member
    obtain ⟨other, otherMem, kept, entryEq⟩ := later.isNext entry member
    exact ⟨other, List.mem_cons_of_mem transition otherMem, kept, entryEq⟩
  obtain ⟨-, ⟨waitingEq, present, -⟩ | ⟨waitingEq, kept, unknown, -⟩⟩ := addStep_eq_ok first
  · refine ⟨found, by rw [waitingEq], stillNew, isNext, later.distinct, ?_⟩
    intro other member otherKept
    rcases List.mem_cons.mp member with isFirst | isLater
    · exact Or.inl (isFirst ▸ present (isFirst ▸ otherKept))
    · rcases coveredLater other isLater otherKept with (same | old) | isFound
      · left
        by_cases kept : keep transition.target (value + transition.weight) = true
        · rw [← before.model.contains_congr same]
          exact present kept
        · rw [destination, if_neg kept, destination, if_pos otherKept] at same
          cases same
      · exact Or.inl old
      · exact Or.inr isFound
  · let added := (transition.target, value + transition.weight)
    have addedNode : node added = destination keep value transition := by
      rw [destination, if_pos kept, node]
    refine ⟨found ++ [added], by rw [waitingEq]; simp [added], ?_, ?_, ?_, ?_⟩
    · intro entry member
      rcases List.mem_append.mp member with old | isAdded
      · exact stillNew entry old
      · rw [List.mem_singleton.mp isAdded, addedNode]
        exact unknown
    · intro entry member
      rcases List.mem_append.mp member with old | isAdded
      · exact isNext entry old
      · exact ⟨transition, by simp, kept, List.mem_singleton.mp isAdded⟩
    · refine List.pairwise_append.mpr ⟨later.distinct, List.pairwise_singleton _ _, ?_⟩
      intro entry member other isAdded same
      have present := (contains_addStep first (node entry)).mpr (Or.inl (OrientedCmp.eq_symm (by
        rw [← addedNode, ← List.mem_singleton.mp isAdded]
        exact same)))
      rw [later.isNew entry member] at present
      cases present
    · intro other member otherKept
      rcases List.mem_cons.mp member with isFirst | isLater
      · exact Or.inr ⟨added, by simp, by rw [addedNode, isFirst]; exact ReflCmp.compare_self⟩
      · rcases coveredLater other isLater otherKept with (same | old) | ⟨entry, entryMem, same⟩
        · exact Or.inr ⟨added, by simp, by rw [addedNode]; exact same⟩
        · exact Or.inl old
        · exact Or.inr ⟨entry, List.mem_append_left _ entryMem, same⟩

end Earlier

/-- What the steps along some transitions of a node do. -/
structure Expansion (keep : S → R → Bool) (here : UnfoldedState S R) (value : R)
    (transitions : List (Transition S A R)) (before after : Progress S A R) : Prop where
  wellFormed : before.model.WellFormed → after.model.WellFormed
  contains_iff : ∀ label, after.model.contains label = true ↔
    before.model.contains label = true ∨
      ∃ transition ∈ transitions, compare (destination keep value transition) label = .eq
  edge?_here : ∀ action target, after.model.edge? here action target =
    (transitions.filter (contributes keep value action target)).foldl takeIn
      (before.model.edge? here action target)
  edge?_apart : ∀ label, compare here label ≠ .eq → ∀ action target,
    after.model.edge? label action target = before.model.edge? label action target
  targets_eq : after.targets = before.targets
  waiting_eq : ∃ found, after.waiting = found ++ before.waiting ∧
    NewPairs keep value transitions before found

/-- The steps along the transitions of a node of the model expand it. -/
theorem expansion_of_foldlM {keep : S → R → Bool} {limit : Nat} {here : UnfoldedState S R}
    {value : R} {transitions : List (Transition S A R)} {before after : Progress S A R}
    (stepped : transitions.foldlM (addStep keep limit here value) before = .ok after)
    (known : before.model.contains here = true) :
    Expansion keep here value transitions before after := by
  induction transitions generalizing before with
  | nil =>
      cases stepped
      exact ⟨id, by simp, fun _ _ => rfl, fun _ _ _ _ => rfl, rfl, [], rfl, by simp, by simp,
        List.Pairwise.nil, by simp⟩
  | cons transition transitions ih =>
      rw [List.foldlM_cons] at stepped
      cases first : addStep keep limit here value before transition with
      | error limit =>
          rw [first] at stepped
          cases stepped
      | ok middle =>
          rw [first] at stepped
          have middleContains := contains_addStep first
          have rest := ih stepped ((middleContains here).mpr (Or.inr (Or.inr known)))
          refine ⟨fun wellFormed => rest.wellFormed (wellFormed_addStep first wellFormed),
            ?_, ?_, ?_, ?_, ?_⟩
          · intro label
            rw [rest.contains_iff, middleContains]
            simp only [List.mem_cons, exists_eq_or_imp]
            constructor
            · rintro ((isNext | isHere | old) | later)
              · exact Or.inr (Or.inl isNext)
              · exact Or.inl ((before.model.contains_congr isHere).symm.trans known)
              · exact Or.inl old
              · exact Or.inr (Or.inr later)
            · rintro (old | isNext | later)
              · exact Or.inl (Or.inr (Or.inr old))
              · exact Or.inl (Or.inl isNext)
              · exact Or.inr later
          · intro action target
            rw [rest.edge?_here, edge?_addStep first]
            by_cases joins : contributes keep value action target transition = true
            · obtain ⟨sameAction, sameTarget⟩ : compare (.take transition.action) action = .eq ∧
                  compare (destination keep value transition) target = .eq := by
                simpa [contributes] using joins
              rw [if_pos ⟨ReflCmp.compare_self, sameAction, sameTarget⟩,
                List.filter_cons_of_pos joins, List.foldl_cons,
                before.model.edge?_congr ReflCmp.compare_self sameAction sameTarget]
            · have apart : ¬(compare (.take transition.action) action = .eq ∧
                  compare (destination keep value transition) target = .eq) := by
                simpa [contributes] using joins
              rw [if_neg fun all => apart all.2, List.filter_cons_of_neg joins]
          · intro label apart action target
            rw [rest.edge?_apart label apart, edge?_addStep first, if_neg fun all => apart all.1]
          · rw [rest.targets_eq, (addStep_eq_ok first).1]
          · obtain ⟨found, waitingEq, later⟩ := rest.waiting_eq
            obtain ⟨all, allEq, newPairs⟩ := later.cons first known
            exact ⟨all, waitingEq.trans allEq.symm, newPairs⟩

section Terminal

omit [TransOrd S] [TransOrd A] [LawfulNumber R]

/-- Whether an action of a state may stay there. -/
def stays (model : Model S A R) (state : S) (action : A) : Bool :=
  (model.actions state)[action]?.any fun distribution => distribution.contains state

/-- The actions of a target in the unfolded model: those that may stay, or the loop. -/
def loops (model : Model S A R) (state : S) : UnfoldedAction A → Prop
  | .loop => ∀ action, ¬stays model state action = true
  | .take action => stays model state action = true

/-- The actions of a state that may stay, with their distributions. -/
def staying (model : Model S A R) (state : S) : List (A × Distribution S R) :=
  (model.actions state).toList.filter fun entry => entry.2.contains state

theorem addTerminal_eq (model : Model S A R) (state : S) (value : R)
    (unfolded : UnfoldedModel S A R) :
    addTerminal model state value unfolded =
      if (staying model state).isEmpty then
        unfolded.addTransition (.pair state value) .loop (.pair state value) 1 0
      else (staying model state).foldl (fun unfolded entry =>
        unfolded.addTransition (.pair state value) (.take entry.1) (.pair state value) 1 0)
          unfolded :=
  rfl

theorem exists_staying_iff [TransOrd A] (model : Model S A R) (state : S) (action : A) :
    (∃ entry ∈ staying model state, compare entry.1 action = .eq) ↔
      stays model state action = true := by
  rw [stays, Option.any_eq_true]
  constructor
  · rintro ⟨entry, member, same⟩
    obtain ⟨offered, contained⟩ := List.mem_filter.mp member
    refine ⟨entry.2, ?_, contained⟩
    exact TreeMap.getElem?_eq_some_iff_exists_compare_eq_eq_and_mem_toList.mpr
      ⟨entry.1, OrientedCmp.eq_symm same, offered⟩
  · rintro ⟨distribution, found, contained⟩
    obtain ⟨label, same, offered⟩ :=
      TreeMap.getElem?_eq_some_iff_exists_compare_eq_eq_and_mem_toList.mp found
    exact ⟨(label, distribution), List.mem_filter.mpr ⟨offered, contained⟩,
      OrientedCmp.eq_symm same⟩

variable [TransOrd S] [TransOrd A] [LawfulNumber R]

private theorem edge?_foldl_loops (here : UnfoldedState S R) (entries : List (A × Distribution S R))
    (distinct : entries.Pairwise fun first second => ¬compare first.1 second.1 = .eq)
    (unfolded : UnfoldedModel S A R)
    (fresh : ∀ entry ∈ entries, unfolded.edge? here (.take entry.1) here = none)
    (label : UnfoldedState S R) (action : UnfoldedAction A) (target : UnfoldedState S R) :
    let looped := entries.foldl (fun unfolded entry =>
      unfolded.addTransition here (.take entry.1) here 1 0) unfolded
    ((compare here label = .eq ∧ compare here target = .eq ∧
        ∃ entry ∈ entries, compare (.take entry.1) action = .eq) ∧
        looped.edge? label action target = some (1, 0)) ∨
      (¬(compare here label = .eq ∧ compare here target = .eq ∧
        ∃ entry ∈ entries, compare (.take entry.1) action = .eq) ∧
        looped.edge? label action target = unfolded.edge? label action target) := by
  induction entries generalizing unfolded with
  | nil => exact Or.inr ⟨by simp, rfl⟩
  | cons entry entries ih =>
      obtain ⟨apart, distinctRest⟩ := List.pairwise_cons.mp distinct
      have afterFirst := unfolded.edge?_addTransition here (.take entry.1) here 1 0
      have freshRest : ∀ other ∈ entries,
          (unfolded.addTransition here (.take entry.1) here 1 0).edge? here (.take other.1) here =
            none := by
        intro other member
        rw [afterFirst, if_neg fun all => apart other member all.2.1]
        exact fresh other (List.mem_cons_of_mem entry member)
      have rest := ih distinctRest _ freshRest
      simp only [List.foldl_cons, List.mem_cons, exists_eq_or_imp]
      rcases rest with ⟨⟨sameLabel, sameTarget, later⟩, isLoop⟩ | ⟨notLater, unchanged⟩
      · exact Or.inl ⟨⟨sameLabel, sameTarget, Or.inr later⟩, isLoop⟩
      · rw [unchanged, afterFirst]
        by_cases joins : compare here label = .eq ∧ compare (.take entry.1) action = .eq ∧
            compare here target = .eq
        · left
          rw [if_pos joins, fresh entry (by simp)]
          exact ⟨⟨joins.1, joins.2.2, Or.inl joins.2.1⟩, rfl⟩
        · right
          rw [if_neg joins]
          refine ⟨?_, rfl⟩
          rintro ⟨sameLabel, sameTarget, sameAction | later⟩
          · exact joins ⟨sameLabel, sameAction, sameTarget⟩
          · exact notLater ⟨sameLabel, sameTarget, later⟩

theorem wellFormed_addTerminal (model : Model S A R) (state : S) (value : R)
    {unfolded : UnfoldedModel S A R} (wellFormed : unfolded.WellFormed) :
    (addTerminal model state value unfolded).WellFormed := by
  rw [addTerminal_eq]
  split
  · exact wellFormed.addTransition _ _ _ _ _
  · exact List.foldlRecOn _ _ wellFormed fun looped looping _ _ => looping.addTransition _ _ _ _ _

omit [TransOrd A] in
theorem contains_addTerminal (model : Model S A R) (state : S) (value : R)
    {unfolded : UnfoldedModel S A R} (known : unfolded.contains (.pair state value) = true)
    (label : UnfoldedState S R) :
    (addTerminal model state value unfolded).contains label = true ↔
      unfolded.contains label = true := by
  have loop (action : UnfoldedAction A) (looped : UnfoldedModel S A R)
      (same : ∀ label, looped.contains label = true ↔ unfolded.contains label = true)
      (label : UnfoldedState S R) :
      (looped.addTransition (.pair state value) action (.pair state value) 1 0).contains label =
        true ↔ unfolded.contains label = true := by
    rw [Model.contains_addTransition, same]
    constructor
    · rintro (isHere | isHere | old)
      · exact (unfolded.contains_congr isHere).symm.trans known
      · exact (unfolded.contains_congr isHere).symm.trans known
      · exact old
    · exact fun old => Or.inr (Or.inr old)
  rw [addTerminal_eq]
  split
  · exact loop .loop unfolded (fun _ => Iff.rfl) label
  · refine List.foldlRecOn (motive := fun looped : UnfoldedModel S A R =>
      ∀ label, looped.contains label = true ↔ unfolded.contains label = true)
      _ _ (fun _ => Iff.rfl) (fun looped same entry _ => ?_) label
    exact loop (.take entry.1) looped same

omit [TransOrd S] [LawfulNumber R] in
private theorem distinct_staying (model : Model S A R) (state : S) :
    (staying model state).Pairwise fun first second => ¬compare first.1 second.1 = .eq :=
  TreeMap.distinct_keys_toList.filter _

omit [TransOrd S] [LawfulNumber R] in
private theorem exists_staying_take_iff (model : Model S A R) (state : S)
    (someStays : ¬(staying model state).isEmpty = true) (action : UnfoldedAction A) :
    (∃ entry ∈ staying model state, compare (.take entry.1) action = .eq) ↔
      loops model state action := by
  cases action with
  | take action => exact exists_staying_iff model state action
  | loop =>
      obtain ⟨entry, member⟩ := List.exists_mem_of_ne_nil _
        (mt List.isEmpty_iff.mpr someStays)
      constructor
      · rintro ⟨_, -, impossible⟩
        cases impossible
      · intro noneStays
        exact (noneStays entry.1
          ((exists_staying_iff model state entry.1).mp ⟨entry, member, ReflCmp.compare_self⟩)).elim

omit [TransOrd S] [LawfulNumber R] in
private theorem compare_loop_iff (model : Model S A R) (state : S)
    (noneStays : (staying model state).isEmpty = true) (action : UnfoldedAction A) :
    compare .loop action = .eq ↔ loops model state action := by
  have notStaying (action : A) : ¬stays model state action = true := by
    rw [← exists_staying_iff, List.isEmpty_iff.mp noneStays]
    simp
  cases action with
  | loop => exact ⟨fun _ => notStaying, fun _ => rfl⟩
  | take action =>
      constructor
      · intro impossible
        cases impossible
      · exact fun isStaying => (notStaying action isStaying).elim

theorem edge?_addTerminal (model : Model S A R) (state : S) (value : R)
    {unfolded : UnfoldedModel S A R}
    (fresh : ∀ action target, unfolded.edge? (.pair state value) action target = none)
    (action : UnfoldedAction A) (target : UnfoldedState S R) (edge : R × R) :
    (addTerminal model state value unfolded).edge? (.pair state value) action target = some edge ↔
      edge = (1, 0) ∧ loops model state action ∧ compare (.pair state value) target = .eq := by
  rw [addTerminal_eq]
  split
  · rename_i noneStays
    rw [Model.edge?_addTransition, fresh, fresh, ← compare_loop_iff model state noneStays action]
    split
    · rename_i joins
      simp [Model.takeUp, joins, eq_comm]
    · rename_i apart
      simp only [reduceCtorEq, false_iff]
      exact fun isLoop => apart ⟨ReflCmp.compare_self, isLoop.2⟩
  · rename_i someStays
    rcases edge?_foldl_loops (.pair state value) _ (distinct_staying model state) unfolded
      (fun entry _ => fresh _ _) (.pair state value) action target with
      ⟨⟨-, sameTarget, isStaying⟩, isLoop⟩ | ⟨apart, unchanged⟩
    · rw [isLoop]
      have isLooping := (exists_staying_take_iff model state someStays action).mp isStaying
      simp [isLooping, sameTarget, eq_comm]
    · rw [unchanged, fresh]
      simp only [reduceCtorEq, false_iff]
      rintro ⟨-, isLooping, sameTarget⟩
      exact apart ⟨ReflCmp.compare_self, sameTarget,
        (exists_staying_take_iff model state someStays action).mpr isLooping⟩

theorem edge?_addTerminal_apart (model : Model S A R) (state : S) (value : R)
    {unfolded : UnfoldedModel S A R}
    (fresh : ∀ action target, unfolded.edge? (.pair state value) action target = none)
    {label : UnfoldedState S R} (apart : compare (.pair state value) label ≠ .eq)
    (action : UnfoldedAction A) (target : UnfoldedState S R) :
    (addTerminal model state value unfolded).edge? label action target =
      unfolded.edge? label action target := by
  rw [addTerminal_eq]
  split
  · rw [Model.edge?_addTransition, if_neg fun all => apart all.1]
  · rcases edge?_foldl_loops (.pair state value) _ (distinct_staying model state) unfolded
      (fun entry _ => fresh _ _) label action target with ⟨joins, -⟩ | ⟨-, unchanged⟩
    · exact (apart joins.1).elim
    · exact unchanged

end Terminal

end Unfolding

end MarkovDecision
