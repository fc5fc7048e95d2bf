import MarkovDecision.Proofs.Learning.Visits

/-!
# What updates keep

However a learner changes the value of an action, its memory stays in order: the table of values
has the states and actions of the model as its keys, and the policy takes one of the actions of
every state that has any.  In the states that were updated the policy is greedy, which means that
it takes the first of the actions with the greatest value; the rows of other states are untouched.
-/

namespace MarkovDecision

open Std (TreeMap TransOrd ReflCmp OrientedCmp)

variable {S A R : Type} [Ord S] [Ord A] [Number R]

section Greedy

omit [Ord A]

/-- The entry that is the greedy choice so far, when one more has been seen. -/
def keepGreater (best? : Option (A × R)) (entry : A × R) : Option (A × R) :=
  match best? with
  | some (_, bound) => if entry.2 ≤ bound then best? else some entry
  | none => some entry

theorem foldl_keepGreater_isSome (entries : List (A × R)) (best : A × R) :
    (entries.foldl keepGreater (some best)).isSome = true := by
  induction entries generalizing best with
  | nil => rfl
  | cons entry entries ih =>
      rw [List.foldl_cons, keepGreater]
      split
      · exact ih best
      · exact ih entry

theorem mem_of_foldl_keepGreater {entries : List (A × R)} {best : A × R}
    (found : entries.foldl keepGreater none = some best) : best ∈ entries := by
  have isEntry : ∀ entry, entries.foldl keepGreater none = some entry → entry ∈ entries := by
    refine List.foldlRecOn (motive := fun best? => ∀ entry, best? = some entry → entry ∈ entries)
      entries _ (by simp) ?_
    intro best? earlier entry member chosen isChosen
    unfold keepGreater at isChosen
    split at isChosen
    · split at isChosen
      · exact earlier chosen isChosen
      · cases isChosen
        exact member
    · cases isChosen
      exact member
  exact isEntry best found

theorem exists_foldl_keepGreater [FiniteOrder R] {entries : List (A × R)} (nonempty : entries ≠ [])
    (finite : ∀ entry ∈ entries, Number.isFinite entry.2 = true) :
    ∃ before best after, entries = before ++ best :: after ∧
      entries.foldl keepGreater none = some best ∧ (∀ entry ∈ before, ¬best.2 ≤ entry.2) ∧
      ∀ entry ∈ entries, entry.2 ≤ best.2 := by
  have reflexive {entry : A × R} (member : entry ∈ entries) : entry.2 ≤ entry.2 :=
    (FiniteOrder.le_total (finite entry member) (finite entry member)).elim id id
  induction entries using List.reverseRecOn with
  | nil => exact (nonempty rfl).elim
  | append_singleton entries last ih =>
      by_cases isEmpty : entries = []
      · subst isEmpty
        have isReflexive : last.2 ≤ last.2 := reflexive (by simp)
        exact ⟨[], last, [], rfl, rfl, by simp, by simpa using isReflexive⟩
      · obtain ⟨before, best, after, split, found, aboveEarlier, greatest⟩ :=
          ih isEmpty (fun entry member => finite entry (by simp [member]))
            fun member => reflexive (by simp [member])
        have isEntry : best ∈ entries := mem_of_foldl_keepGreater found
        rw [List.foldl_append, found, List.foldl_cons, List.foldl_nil, keepGreater]
        by_cases isGreater : last.2 ≤ best.2
        · refine ⟨before, best, after ++ [last], by simp [split], by simp [isGreater],
            aboveEarlier, ?_⟩
          intro entry member
          rcases List.mem_append.mp member with earlier | isLast
          · exact greatest entry earlier
          · rw [List.mem_singleton.mp isLast]
            exact isGreater
        · have comparable := FiniteOrder.le_total (finite best (by simp [isEntry]))
            (finite last (by simp))
          have aboveBest : best.2 ≤ last.2 := comparable.resolve_right isGreater
          refine ⟨entries, last, [], rfl, by simp [isGreater], ?_, ?_⟩
          · intro entry member atLeast
            exact isGreater (FiniteOrder.le_trans atLeast (greatest entry member))
          · intro entry member
            rcases List.mem_append.mp member with earlier | isLast
            · exact FiniteOrder.le_trans (greatest entry earlier) aboveBest
            · rw [List.mem_singleton.mp isLast]
              exact reflexive (by simp)

end Greedy

/-- An action has the greatest value of a row, and no action before it has that value. -/
structure IsFirstBest (row : TreeMap A R) (action : A) (value : R) : Prop where
  found : row[action]? = some value
  greatest : ∀ entry ∈ row.toList, entry.2 ≤ value
  first : ∀ entry ∈ row.toList, compare entry.1 action = .lt → ¬value ≤ entry.2

section Rows

variable {row : TreeMap A R}

theorem greedyAction?_eq (row : TreeMap A R) :
    greedyAction? row = (row.toList.foldl keepGreater none).map (·.1) :=
  rfl

variable [TransOrd A]

theorem exists_greedyAction? {action : A} (contained : row.contains action = true) :
    ∃ best, greedyAction? row = some best := by
  rw [greedyAction?_eq]
  cases listed : row.toList with
  | nil =>
      rw [TreeMap.contains_eq_isSome_getElem?] at contained
      obtain ⟨value, found⟩ := Option.isSome_iff_exists.mp contained
      obtain ⟨other, -, member⟩ :=
        TreeMap.getElem?_eq_some_iff_exists_compare_eq_eq_and_mem_toList.mp found
      rw [listed] at member
      cases member
  | cons first rest =>
      obtain ⟨best, found⟩ := Option.isSome_iff_exists.mp (foldl_keepGreater_isSome rest first)
      exact ⟨best.1, congrArg (Option.map (·.1)) found⟩

theorem contains_of_greedyAction? {best : A} (isGreedy : greedyAction? row = some best) :
    row.contains best = true := by
  rw [greedyAction?_eq, Option.map_eq_some_iff] at isGreedy
  obtain ⟨entry, found, rfl⟩ := isGreedy
  rw [TreeMap.contains_eq_isSome_getElem?,
    getElem?_of_mem_toList (mem_of_foldl_keepGreater found)]
  rfl

/-- The greedy action in a row of finite values is the first of those with the greatest value. -/
theorem exists_isFirstBest [FiniteOrder R] {best : A} (isGreedy : greedyAction? row = some best)
    (finite : ∀ entry ∈ row.toList, Number.isFinite entry.2 = true) :
    ∃ value, IsFirstBest row best value := by
  rw [greedyAction?_eq, Option.map_eq_some_iff] at isGreedy
  obtain ⟨entry, found, rfl⟩ := isGreedy
  have nonempty : row.toList ≠ [] := List.ne_nil_of_mem (mem_of_foldl_keepGreater found)
  obtain ⟨before, first, after, split, foundFirst, aboveEarlier, greatest⟩ :=
    exists_foldl_keepGreater nonempty finite
  cases found.symm.trans foundFirst
  refine ⟨entry.2, getElem?_of_mem_toList (mem_of_foldl_keepGreater found), greatest, ?_⟩
  intro other member isBefore
  -- The row is listed in the order of its actions, so what is less stands before.
  have ordered := TreeMap.ordered_keys_toList (t := row)
  rw [split] at member ordered
  rcases List.mem_append.mp member with earlier | rest
  · exact aboveEarlier other earlier
  · obtain ⟨-, orderedRest, -⟩ := List.pairwise_append.mp ordered
    rcases List.mem_cons.mp rest with rfl | later
    · cases isBefore.symm.trans ReflCmp.compare_self
    · have isAfter := (List.pairwise_cons.mp orderedRest).1 other later
      cases isBefore.symm.trans (OrientedCmp.gt_of_lt isAfter)

end Rows

/-- A memory in order: values for the states and actions of the model, and a policy that takes one
of the actions of every state that has any. -/
structure InOrder (model : Model S A R) (memory : Memory S A R) : Prop where
  covers : Covers model memory.values
  decides_iff : ∀ state, memory.policy.contains state = true ↔
    ∃ action, (model.actions state).contains action = true
  legal : ∀ {state action}, memory.policy[state]? = some action →
    (model.actions state).contains action = true

/-- The policy of a state is what is greedy there, if anything is. -/
def GreedyAt (memory : Memory S A R) (state : S) : Prop :=
  ∀ row best, memory.values[state]? = some row → greedyAction? row = some best →
    memory.policy[state]? = some best

omit [Number R] in
/-- Something holds of all values in a table. -/
def AllValues (holds : R → Prop) (values : ActionValues S A R) : Prop :=
  ∀ (state : S) (row : TreeMap A R), values[state]? = some row →
    ∀ entry ∈ row.toList, holds entry.2

omit [Number R] in
theorem AllValues.of_getElem? [TransOrd A] {holds : R → Prop} {values : ActionValues S A R}
    (all : AllValues holds values) {state : S} {row : TreeMap A R}
    (isRow : values[state]? = some row)
    {action : A} {value : R} (isValue : row[action]? = some value) : holds value := by
  obtain ⟨stored, -, member⟩ :=
    TreeMap.getElem?_eq_some_iff_exists_compare_eq_eq_and_mem_toList.mp isValue
  exact all state row isRow (stored, value) member

section Updating

variable [TransOrd S] {memory : Memory S A R}

theorem Memory.getElem?_policy_update (memory : Memory S A R) (state : S) (action : A)
    (change : R → R) (other : S) :
    (memory.update state action change).policy[other]? =
      if compare state other = .eq then
        ((memory.update state action change).values[other]?.bind greedyAction?).or
          memory.policy[other]?
      else memory.policy[other]? := by
  rw [getElem?_update]
  cases found : memory.values[state]? with
  | none =>
      simp only [update, found, Option.map_none]
      split <;> simp
  | some row =>
      simp only [update, found, Option.map_some]
      by_cases same : compare state other = .eq
      · simp only [if_pos same, Option.bind_some]
        cases greedyAction? (row.alter action fun value? => some (change (value?.getD 0))) with
        | none => rfl
        | some best => simp only [TreeMap.getElem?_insert, if_pos same, Option.some_or]
      · simp only [if_neg same]
        cases greedyAction? (row.alter action fun value? => some (change (value?.getD 0))) with
        | none => rfl
        | some best => simp only [TreeMap.getElem?_insert, if_neg same]

theorem GreedyAt.update {other : S} (isGreedy : GreedyAt memory other) (state : S) (action : A)
    (change : R → R) : GreedyAt (memory.update state action change) other := by
  intro row best isRow isBest
  rw [Memory.getElem?_policy_update, isRow, Option.bind_some, isBest, Option.some_or]
  split
  · rfl
  · rename_i different
    rw [Memory.getElem?_update, if_neg different] at isRow
    exact isGreedy row best isRow isBest

theorem greedyAt_update (memory : Memory S A R) (state : S) (action : A) (change : R → R) :
    GreedyAt (memory.update state action change) state := by
  intro row best isRow isBest
  rw [Memory.getElem?_policy_update, isRow, Option.bind_some, isBest, Option.some_or,
    if_pos ReflCmp.compare_self]

variable [TransOrd A] {model : Model S A R}

theorem AllValues.update {holds : R → Prop} (all : AllValues holds memory.values) (atZero : holds 0)
    {change : R → R} (keeps : ∀ value, holds value → holds (change value)) (state : S)
    (action : A) :
    AllValues holds (memory.update state action change).values := by
  intro other row isRow entry member
  rw [Memory.getElem?_update] at isRow
  split at isRow
  · obtain ⟨before, isBefore, rfl⟩ := Option.map_eq_some_iff.mp isRow
    have isEntry := getElem?_of_mem_toList member
    rw [TreeMap.getElem?_alter] at isEntry
    split at isEntry
    · rw [← Option.some.inj isEntry]
      cases found : before[action]? with
      | none => exact keeps 0 atZero
      | some value => exact keeps value (all.of_getElem? isBefore found)
    · exact all.of_getElem? isBefore isEntry
  · exact all other row isRow entry member

theorem InOrder.update (inOrder : InOrder model memory) {state : S} {action : A}
    (offered : (model.actions state).contains action = true) (change : R → R) :
    InOrder model (memory.update state action change) where
  covers := inOrder.covers.update offered change
  decides_iff other := by
    rw [← inOrder.decides_iff, TreeMap.contains_eq_isSome_getElem?, Memory.getElem?_policy_update,
      TreeMap.contains_eq_isSome_getElem?]
    split
    · rename_i same
      have decided : memory.policy[other]?.isSome = true := by
        rw [← TreeMap.contains_eq_isSome_getElem?, inOrder.decides_iff, ← model.actions_congr same]
        exact ⟨action, offered⟩
      rw [Option.isSome_or, decided, Bool.or_true]
    · rfl
  legal := by
    intro other best isBest
    rw [Memory.getElem?_policy_update] at isBest
    split at isBest
    · rcases Option.or_eq_some_iff.mp isBest with isGreedy | ⟨-, before⟩
      · obtain ⟨row, isRow, isGreedy⟩ := Option.bind_eq_some_iff.mp isGreedy
        rw [← (inOrder.covers.update offered change).row_iff isRow]
        exact contains_of_greedyAction? isGreedy
      · exact inOrder.legal before
    · exact inOrder.legal isBest

end Updating

/-- A memory is made of another by some update of the action of a visit. -/
def Updates (visit : Visit S A R) (memory next : Memory S A R) : Prop :=
  ∃ change, next = memory.update visit.state visit.action change

/-- A memory is made of another by updates at the visits of a list, one after the other. -/
inductive Revises : List (Visit S A R) → Memory S A R → Memory S A R → Prop
  | none {memory : Memory S A R} : Revises [] memory memory
  | update {visit : Visit S A R} {visits : List (Visit S A R)} {memory next final : Memory S A R}
      (updates : Updates visit memory next) (later : Revises visits next final) :
      Revises (visit :: visits) memory final

section Revising

variable {visits : List (Visit S A R)} {memory final : Memory S A R}
  (revises : Revises visits memory final)
include revises

theorem Revises.append {others : List (Visit S A R)} {last : Memory S A R}
    (later : Revises others final last) : Revises (visits ++ others) memory last := by
  induction revises with
  | none => exact later
  | update updates _ ih => exact Revises.update updates (ih later)

variable [TransOrd S]

theorem Revises.greedyAt {state : S} (isGreedy : GreedyAt memory state) :
    GreedyAt final state := by
  induction revises with
  | none => exact isGreedy
  | update updates _ ih =>
      obtain ⟨change, rfl⟩ := updates
      exact ih (isGreedy.update _ _ change)

/-- In the end the policy is greedy wherever an update was made. -/
theorem Revises.greedyAt_of_mem {visit : Visit S A R} (member : visit ∈ visits) :
    GreedyAt final visit.state := by
  induction revises with
  | none => cases member
  | @update _ _ memory _ _ updates later ih =>
      rcases List.mem_cons.mp member with rfl | isLater
      · obtain ⟨change, rfl⟩ := updates
        exact later.greedyAt (greedyAt_update memory _ _ change)
      · exact ih isLater

theorem Revises.getElem?_eq_of_forall_ne {state : S}
    (elsewhere : ∀ visit ∈ visits, compare visit.state state ≠ .eq) :
    final.values[state]? = memory.values[state]? := by
  induction revises with
  | none => rfl
  | update updates _ ih =>
      obtain ⟨different, elsewhereLater⟩ := List.forall_mem_cons.mp elsewhere
      obtain ⟨change, rfl⟩ := updates
      rw [ih elsewhereLater, Memory.getElem?_update, if_neg different]

variable [TransOrd A]

theorem Revises.inOrder {model : Model S A R}
    (legal : ∀ visit ∈ visits, (model.actions visit.state).contains visit.action = true)
    (inOrder : InOrder model memory) : InOrder model final := by
  induction revises with
  | none => exact inOrder
  | update updates _ ih =>
      obtain ⟨legalFirst, legalLater⟩ := List.forall_mem_cons.mp legal
      obtain ⟨change, rfl⟩ := updates
      exact ih legalLater (inOrder.update legalFirst change)

end Revising

end MarkovDecision
