import MarkovDecision.Reachability
import MarkovDecision.Proofs.Model.Connectivity
import MarkovDecision.Proofs.Folds

/-!
# Settled and unsettled states

What the tables of a reachability problem hold: the class of every state, the values of the
settled states, the position of every unsettled state among the variables of the linear program,
and the values that an answer is put together from.
-/

namespace MarkovDecision

open Std (TreeMap TransOrd LawfulEqOrd)

namespace Model

variable {S A R : Type} [Ord S]

/-- How a state stands to the targets. -/
def classification (model : Model S A R) (targets : LabelSet S) (state : S) : Classification :=
  if targets.contains state then .target
  else if (model.comingTo targets).contains state then .unknown
  else .unreachable

theorem classification_eq_target_iff (model : Model S A R) {targets : LabelSet S} (state : S) :
    model.classification targets state = .target ↔ targets.contains state = true := by
  unfold classification
  split
  · simp_all
  · split <;> simp_all

theorem classification_eq_unknown_iff {model : Model S A R} {targets : LabelSet S} (state : S) :
    model.classification targets state = .unknown ↔
      ¬targets.contains state = true ∧ (model.comingTo targets).contains state = true := by
  unfold classification
  split
  · simp_all
  · split <;> simp_all

theorem classification_eq_unreachable_iff {model : Model S A R} {targets : LabelSet S}
    (state : S) :
    model.classification targets state = .unreachable ↔
      ¬targets.contains state = true ∧ ¬(model.comingTo targets).contains state = true := by
  unfold classification
  split
  · simp_all
  · split <;> simp_all

/-- The position of each state of a list. -/
def positions (states : List S) : TreeMap S Nat :=
  states.zipIdx.foldl (fun indices entry => indices.insert entry.1 entry.2) ∅

variable [TransOrd S] [LawfulEqOrd S] [Ord A]

theorem WellFormed.getElem?_classify {model : Model S A R} (wellFormed : model.WellFormed)
    (targets : LabelSet S) (state : S) :
    (model.classify targets)[state]? =
      if model.contains state then some (model.classification targets state) else none := by
  have gathered : model.classify targets =
      (model.states.toList.map fun state => (state, model.classification targets state)).foldl
        (fun table entry => table.insert entry.1 entry.2) ∅ := by
    rw [List.foldl_map]
    rfl
  rw [gathered]
  split
  · rename_i known
    apply getElem?_foldl_insert_of_mem
    · rw [List.map_map]
      simpa [Function.comp_def] using wellFormed.nodup_states
    · exact List.mem_map.mpr ⟨state, (wellFormed.mem_states_iff state).mpr known, rfl⟩
  · rename_i unknown
    rw [getElem?_foldl_insert_of_notMem, TreeMap.getElem?_emptyc]
    intro entry member sameKey
    obtain ⟨other, otherMem, rfl⟩ := List.mem_map.mp member
    exact unknown (sameKey ▸ (wellFormed.mem_states_iff other).mp otherMem)

theorem WellFormed.getElem?_classify_eq_some_iff {model : Model S A R}
    (wellFormed : model.WellFormed) (targets : LabelSet S) (state : S)
    (standing : Classification) :
    (model.classify targets)[state]? = some standing ↔
      model.contains state = true ∧ model.classification targets state = standing := by
  rw [wellFormed.getElem?_classify, Option.ite_none_right_eq_some, Option.some.injEq]

/-- From an unreachable state every step leads to an unreachable state. -/
theorem WellFormed.unreachable_successor {model : Model S A R} (wellFormed : model.WellFormed)
    {targets : LabelSet S} {state next : S}
    (standing : model.classification targets state = .unreachable)
    (isNext : next ∈ model.successors state) :
    model.classification targets next = .unreachable := by
  obtain ⟨noTarget, notComing⟩ := (classification_eq_unreachable_iff state).mp standing
  have known : model.contains next = true :=
    (wellFormed.mem_states_iff next).mp (wellFormed.successors_mem_states isNext)
  have nextNotComing : ¬(model.comingTo targets).contains next = true := by
    intro coming
    obtain ⟨target, isTarget, targetKnown, walk⟩ :=
      (wellFormed.mem_comingTo_iff targets next).mp coming
    exact notComing ((wellFormed.mem_comingTo_iff targets state).mpr
      ⟨target, isTarget, targetKnown, Relation.ReflTransGen.head isNext walk⟩)
  refine (classification_eq_unreachable_iff next).mpr ⟨?_, nextNotComing⟩
  intro isTarget
  exact nextNotComing ((wellFormed.mem_comingTo_iff targets next).mpr
    ⟨next, isTarget, known, Relation.ReflTransGen.refl⟩)

omit [Ord A] in
private theorem nodup_filterMap_toList {V W : Type} (table : TreeMap S V)
    (choose : S × V → Option (S × W))
    (sameKey : ∀ entry chosen, choose entry = some chosen → chosen.1 = entry.1) :
    ((table.toList.filterMap choose).map fun entry => entry.1).Nodup := by
  have distinct := TreeMap.distinct_keys_toList (t := table)
  rw [List.Nodup, List.pairwise_map]
  refine List.Pairwise.filterMap choose ?_ distinct
  intro first second different chosen chosenEq other otherEq equal
  apply different
  rw [sameKey first chosen (by simpa using chosenEq), sameKey second other (by simpa using otherEq)]
    at equal
  exact Std.compare_eq_iff_eq.mpr equal

variable [Number R]

/-- The value of a state that needs no linear program. -/
def settledValue? : Classification → Option R
  | .target => some 1
  | .unreachable => some 0
  | .unknown => none

omit [Ord A] in
theorem getElem?_settledValues (classes : TreeMap S Classification) (state : S) :
    (settledValues classes : ValueTable S R)[state]? = classes[state]?.bind settledValue? := by
  let choose (entry : S × Classification) : Option (S × R) :=
    (settledValue? entry.2).map fun value => (entry.1, value)
  have gathered : (settledValues classes : ValueTable S R) =
      (classes.toList.filterMap choose).foldl
        (fun table entry => table.insert entry.1 entry.2) ∅ := by
    rw [List.foldl_filterMap]
    unfold settledValues
    congr 1
    funext values entry
    rcases entry with ⟨label, _ | _ | _⟩ <;> rfl
  have distinct := nodup_filterMap_toList classes choose (by
    intro entry chosen chosenEq
    obtain ⟨value, -, rfl⟩ := Option.map_eq_some_iff.mp chosenEq
    rfl)
  have memIff (value : R) : (state, value) ∈ classes.toList.filterMap choose ↔
      classes[state]?.bind settledValue? = some value := by
    simp only [List.mem_filterMap, choose, Option.map_eq_some_iff, Option.bind_eq_some_iff,
      Prod.exists, Prod.mk.injEq]
    constructor
    · rintro ⟨label, standing, member, other, valueEq, rfl, rfl⟩
      exact ⟨standing, TreeMap.mem_toList_iff_getElem?_eq_some.mp member, valueEq⟩
    · rintro ⟨standing, found, valueEq⟩
      exact ⟨state, standing, TreeMap.mem_toList_iff_getElem?_eq_some.mpr found, value, valueEq,
        rfl, rfl⟩
  rw [gathered]
  cases settled : classes[state]?.bind (settledValue? : Classification → Option R) with
  | some value => exact getElem?_foldl_insert_of_mem distinct ((memIff value).mpr settled) ∅
  | none =>
      rw [getElem?_foldl_insert_of_notMem, TreeMap.getElem?_emptyc]
      rintro ⟨label, value⟩ member rfl
      rw [(memIff value).mp member] at settled
      cases settled

omit [Ord A] [Number R] in
theorem mem_unsettledStates_iff (classes : TreeMap S Classification) (state : S) :
    state ∈ unsettledStates classes ↔ classes[state]? = some .unknown := by
  simp only [unsettledStates, List.mem_filterMap, Option.ite_none_right_eq_some, Option.some.injEq]
  constructor
  · rintro ⟨⟨label, standing⟩, member, isUnknown, rfl⟩
    rw [TreeMap.mem_toList_iff_getElem?_eq_some.mp member]
    exact congrArg some isUnknown
  · intro found
    exact ⟨(state, .unknown), TreeMap.mem_toList_iff_getElem?_eq_some.mpr found, rfl, rfl⟩

omit [Ord A] [Number R] in
theorem nodup_unsettledStates (classes : TreeMap S Classification) :
    (unsettledStates classes).Nodup := by
  have distinct := TreeMap.distinct_keys_toList (t := classes)
  refine List.Pairwise.filterMap _ ?_ distinct
  intro first second different label labelEq other otherEq equal
  apply different
  simp only [Option.ite_none_right_eq_some, Option.some.injEq] at labelEq otherEq
  rw [labelEq.2, otherEq.2]
  exact Std.compare_eq_iff_eq.mpr equal

omit [Ord A] [Number R] in
theorem getElem?_positions_iff {states : List S} (distinct : states.Nodup) (state : S)
    (index : Nat) : (positions states)[state]? = some index ↔ states[index]? = some state := by
  have distinctKeys : (states.zipIdx.map fun entry => entry.1).Nodup := by
    have keysEq : (states.zipIdx.map fun entry => entry.1) = states := List.zipIdx_map_fst 0 states
    rw [keysEq]
    exact distinct
  have forward (index : Nat) (listed : states[index]? = some state) :
      (positions states)[state]? = some index :=
    getElem?_foldl_insert_of_mem distinctKeys (List.mem_zipIdx_iff_getElem?.mpr listed) ∅
  constructor
  · intro found
    by_cases member : state ∈ states
    · obtain ⟨other, listed⟩ := List.mem_iff_getElem?.mp member
      rw [forward other listed] at found
      cases found
      exact listed
    · have absent : (positions states)[state]? = none := by
        unfold positions
        rw [getElem?_foldl_insert_of_notMem, TreeMap.getElem?_emptyc]
        rintro entry entryMem rfl
        exact member (List.mem_of_getElem? (List.mem_zipIdx_iff_getElem?.mp entryMem))
      rw [absent] at found
      cases found
  · exact forward index

/-- The answer that is put together from the classes and a solution: each variable is brought
between zero and one. -/
def assembled (classes : TreeMap S Classification) (solution : Array R) : Reach S R :=
  ⟨(unsettledStates classes).zipIdx.foldl (fun values (entry : S × Nat) =>
      values.insert entry.1 (clampProbability (LinearProgram.assignment solution entry.2)))
      (settledValues classes),
    (unsettledStates classes).length⟩

omit [Ord A] in
/-- Every classified state has its settled value or else its variable. -/
theorem getElem?_assembled (classes : TreeMap S Classification) (solution : Array R) (state : S) :
    (assembled classes solution).values[state]? =
      classes[state]?.map fun standing => (settledValue? standing).getD
        (clampProbability (LinearProgram.assignment solution
          ((positions (unsettledStates classes)).getD state 0))) := by
  have distinct := nodup_unsettledStates classes
  let value (entry : S × Nat) : S × R :=
    (entry.1, clampProbability (LinearProgram.assignment solution entry.2))
  have asEntries : (assembled classes solution).values =
      ((unsettledStates classes).zipIdx.map value).foldl
        (fun table entry => table.insert entry.1 entry.2) (settledValues classes) := by
    rw [List.foldl_map]
    rfl
  have keysEq : (((unsettledStates classes).zipIdx.map value).map fun entry => entry.1) =
      unsettledStates classes := by
    rw [List.map_map]
    exact List.zipIdx_map_fst 0 (unsettledStates classes)
  rw [asEntries]
  by_cases isUnsettled : state ∈ unsettledStates classes
  · obtain ⟨index, listed⟩ := List.mem_iff_getElem?.mp isUnsettled
    rw [(mem_unsettledStates_iff classes state).mp isUnsettled, TreeMap.getD_eq_getD_getElem?,
      (getElem?_positions_iff distinct state index).mpr listed]
    apply getElem?_foldl_insert_of_mem (by rw [keysEq]; exact distinct)
    exact List.mem_map.mpr ⟨(state, index), List.mem_zipIdx_iff_getElem?.mpr listed, rfl⟩
  · have notListed : ∀ entry ∈ (unsettledStates classes).zipIdx.map value, entry.1 ≠ state := by
      intro entry member sameKey
      rw [← keysEq, ← sameKey] at isUnsettled
      exact isUnsettled (List.mem_map.mpr ⟨entry, member, rfl⟩)
    rw [getElem?_foldl_insert_of_notMem notListed, getElem?_settledValues]
    rw [mem_unsettledStates_iff] at isUnsettled
    cases found : classes[state]? with
    | none => rfl
    | some standing =>
        cases standing with
        | target => rfl
        | unreachable => rfl
        | unknown => exact (isUnsettled found).elim

omit [TransOrd S] [LawfulEqOrd S] in
/-- An answer is put together from the classes and a solution, for which the solver is not asked
where all states are settled. -/
theorem exists_solution_of_reach_eq_ok {model : Model S A R} {targets : LabelSet S}
    {solver : Solver R} {reach : Reach S R} (answered : model.reach solver targets = .ok reach) :
    ∃ solution : Array R,
      (unsettledStates (model.classify targets) = [] ∨
        solver (model.reachProgram (model.classify targets)) = some solution) ∧
      reach = assembled (model.classify targets) solution := by
  unfold Model.reach at answered
  dsimp only at answered
  split at answered
  · rename_i noUnknown
    cases answered
    have noUnsettled := List.isEmpty_iff.mp noUnknown
    refine ⟨#[], Or.inl noUnsettled, ?_⟩
    rw [assembled, noUnsettled]
    rfl
  · split at answered
    · cases answered
    · rename_i solution solved
      cases answered
      exact ⟨solution, Or.inr solved, rfl⟩

end Model

end MarkovDecision
