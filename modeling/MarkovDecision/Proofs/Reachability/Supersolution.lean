import MarkovDecision.Proofs.Reachability.Constraints

/-!
# Supersolutions

The feasible assignments of the linear program of a reachability problem are those that stand for
a supersolution: values that are probabilities, are right at the settled states, and do not
promise less than any action.  An optimal assignment stands for a supersolution with the smallest
sum over the unsettled states.
-/

namespace MarkovDecision

open Std (TreeMap TransOrd LawfulEqOrd)

namespace Model

variable {S A : Type} [Ord S] [Ord A]

/-- Probabilities that are right at the settled states and promise at least what every action of
an unsettled state does. -/
structure Supersolution (model : Model S A Rat) (targets : LabelSet S) (values : S → Rat) :
    Prop where
  probability : ∀ state, model.contains state = true → 0 ≤ values state ∧ values state ≤ 1
  target : ∀ state, model.contains state = true →
    model.classification targets state = .target → values state = 1
  unreachable : ∀ state, model.contains state = true →
    model.classification targets state = .unreachable → values state = 0
  promised : ∀ state, model.contains state = true →
    model.classification targets state = .unknown →
      ∀ offer ∈ (model.actions state).toList, expected offer.2 values ≤ values state

def unsettled (model : Model S A Rat) (targets : LabelSet S) : List S :=
  unsettledStates (model.classify targets)

/-- The values of all states that an assignment of the variables stands for. -/
def extend (model : Model S A Rat) (targets : LabelSet S) (values : Nat → Rat) : S → Rat :=
  completed (settledValues (model.classify targets)) (positions (model.unsettled targets)) values

variable {model : Model S A Rat} {targets : LabelSet S}

theorem mem_constraints_iff (constraint : Constraint Rat) :
    constraint ∈ (model.reachProgram (model.classify targets)).constraints ↔
      ∃ state index, (model.unsettled targets)[index]? = some state ∧
        ∃ offer ∈ (model.actions state).toList,
          actionConstraint? (settledValues (model.classify targets))
            (positions (model.unsettled targets)) index offer.2 = some constraint := by
  simp only [reachProgram, List.mem_flatMap, List.mem_filterMap, Prod.exists,
    List.mem_zipIdx_iff_getElem?]
  rfl

variable [TransOrd S] [LawfulEqOrd S]

omit [Ord A] in
theorem nodup_unsettled : (model.unsettled targets).Nodup :=
  nodup_unsettledStates (model.classify targets)

omit [Ord A] in
theorem unsettled_positions_injective (first second : S) (index : Nat)
    (firstIndex : (positions (model.unsettled targets))[first]? = some index)
    (secondIndex : (positions (model.unsettled targets))[second]? = some index) :
    first = second := by
  rw [getElem?_positions_iff nodup_unsettled] at firstIndex secondIndex
  rw [firstIndex] at secondIndex
  exact Option.some.inj secondIndex

theorem reachProgram_wellIndexed :
    (model.reachProgram (model.classify targets)).WellIndexed := by
  intro constraint member entry entryMem
  obtain ⟨state, own, listed, offer, -, produced⟩ := (mem_constraints_iff constraint).mp member
  rw [actionConstraint?_eq] at produced
  split at produced
  · cases produced
  · cases produced
    have entryFound := TreeMap.mem_toList_iff_getElem?_eq_some.mp (List.mem_of_mem_filter entryMem)
    have present : (gathered (settledValues (model.classify targets))
        (positions (model.unsettled targets)) own offer.2).1.contains entry.1 = true := by
      rw [TreeMap.contains_eq_isSome_getElem?, entryFound]
      rfl
    have indexed : ∃ label, (model.unsettled targets)[entry.1]? = some label := by
      rcases contains_gathered _ _ _ _ present with isOwn | ⟨label, hasIndex⟩
      · exact ⟨state, isOwn ▸ listed⟩
      · exact ⟨label, (getElem?_positions_iff nodup_unsettled label entry.1).mp hasIndex⟩
    obtain ⟨label, labelListed⟩ := indexed
    exact (List.getElem?_eq_some_iff.mp labelListed).1

omit [Ord A] in
theorem extend_of_listed (values : Nat → Rat) {state : S} {index : Nat}
    (listed : (model.unsettled targets)[index]? = some state) :
    model.extend targets values state = values index := by
  rw [extend, completed, (getElem?_positions_iff nodup_unsettled state index).mpr listed]

section Classified

variable (wellFormed : model.WellFormed)
include wellFormed

theorem WellFormed.mem_unsettled_iff (state : S) :
    state ∈ model.unsettled targets ↔
      model.contains state = true ∧ model.classification targets state = .unknown := by
  rw [unsettled, mem_unsettledStates_iff, wellFormed.getElem?_classify_eq_some_iff]

theorem WellFormed.exists_listed {state : S} (known : model.contains state = true)
    (standing : model.classification targets state = .unknown) :
    ∃ index : Nat, (model.unsettled targets)[index]? = some state :=
  List.mem_iff_getElem?.mp ((wellFormed.mem_unsettled_iff state).mpr ⟨known, standing⟩)

theorem WellFormed.extend_of_settled (values : Nat → Rat) {state : S}
    (known : model.contains state = true) {value : Rat}
    (isSettled : settledValue? (model.classification targets state) = some value) :
    model.extend targets values state = value := by
  have noVariable : (positions (model.unsettled targets))[state]? = none := by
    cases found : (positions (model.unsettled targets))[state]? with
    | none => rfl
    | some index =>
        have listed := (getElem?_positions_iff nodup_unsettled state index).mp found
        have isUnknown := ((wellFormed.mem_unsettled_iff state).mp (List.mem_of_getElem? listed)).2
        rw [isUnknown] at isSettled
        cases isSettled
  rw [extend, completed, noVariable, TreeMap.getD_eq_getD_getElem?, getElem?_settledValues,
    wellFormed.getElem?_classify, if_pos known, Option.bind_some, isSettled, Option.getD_some]

theorem WellFormed.extend_of_target (values : Nat → Rat) {state : S}
    (known : model.contains state = true)
    (standing : model.classification targets state = .target) :
    model.extend targets values state = 1 :=
  wellFormed.extend_of_settled values known (by rw [standing]; rfl)

theorem WellFormed.extend_of_unreachable (values : Nat → Rat) {state : S}
    (known : model.contains state = true)
    (standing : model.classification targets state = .unreachable) :
    model.extend targets values state = 0 :=
  wellFormed.extend_of_settled values known (by rw [standing]; rfl)

theorem WellFormed.extend_probability (values : Nat → Rat)
    (box : ∀ index, index < (model.unsettled targets).length →
      0 ≤ values index ∧ values index ≤ 1) {state : S} (known : model.contains state = true) :
    0 ≤ model.extend targets values state ∧ model.extend targets values state ≤ 1 := by
  cases standing : model.classification targets state with
  | target =>
      rw [wellFormed.extend_of_target values known standing]
      exact ⟨zero_le_one, le_refl _⟩
  | unreachable =>
      rw [wellFormed.extend_of_unreachable values known standing]
      exact ⟨le_refl _, zero_le_one⟩
  | unknown =>
      obtain ⟨index, listed⟩ := wellFormed.exists_listed known standing
      rw [extend_of_listed values listed]
      exact box index (List.getElem?_eq_some_iff.mp listed).1

variable [TransOrd A]

theorem WellFormed.contains_entry {state : S} {offer : A × Distribution S Rat}
    (offered : offer ∈ (model.actions state).toList) {entry : S × Rat}
    (member : entry ∈ offer.2.toList) : model.contains entry.1 = true :=
  (wellFormed.mem_states_iff entry.1).mp
    (wellFormed.successors_mem_states (wellFormed.entry_mem_successors offered member))

theorem WellFormed.supersolution_congr {first second : S → Rat}
    (agree : ∀ state, model.contains state = true → first state = second state)
    (super : model.Supersolution targets first) : model.Supersolution targets second where
  probability state known := agree state known ▸ super.probability state known
  target state known standing := agree state known ▸ super.target state known standing
  unreachable state known standing := agree state known ▸ super.unreachable state known standing
  promised state known standing offer offered := by
    rw [← agree state known, ← expected_congr fun entry member =>
      agree entry.1 (wellFormed.contains_entry offered member)]
    exact super.promised state known standing offer offered

/-- The feasible assignments are those that stand for a supersolution. -/
theorem WellFormed.feasible_iff (resolved : model.Resolved) (values : Nat → Rat) :
    (model.reachProgram (model.classify targets)).Feasible values ↔
      model.Supersolution targets (model.extend targets values) := by
  have meaning {state : S} {index : Nat}
      (listed : (model.unsettled targets)[index]? = some state)
      {offer : A × Distribution S Rat} (offered : offer ∈ (model.actions state).toList) :
      (∀ constraint, actionConstraint? (settledValues (model.classify targets))
          (positions (model.unsettled targets)) index offer.2 = some constraint →
            constraint.Holds values) ↔
        expected offer.2 (model.extend targets values) ≤ values index := by
    refine actionConstraint?_holds_iff ((getElem?_positions_iff nodup_unsettled state index).mpr listed)
      unsettled_positions_injective (resolved.visible state offer offered)
      (resolved.staying state offer offered) ?_ values
    refine resolved.expected_le offered zero_le_one fun entry member => ?_
    exact (wellFormed.extend_probability (fun _ => 1)
      (fun _ _ => ⟨zero_le_one, le_refl _⟩) (wellFormed.contains_entry offered member)).2
  constructor
  · rintro ⟨box, meets⟩
    refine ⟨fun state known => wellFormed.extend_probability values box known, ?_, ?_, ?_⟩
    · intro state known standing
      exact wellFormed.extend_of_target values known standing
    · intro state known standing
      exact wellFormed.extend_of_unreachable values known standing
    · intro state known standing offer offered
      obtain ⟨index, listed⟩ := wellFormed.exists_listed known standing
      rw [extend_of_listed values listed, ← meaning listed offered]
      intro constraint produced
      exact meets constraint
        ((mem_constraints_iff constraint).mpr ⟨state, index, listed, offer, offered, produced⟩)
  · intro super
    constructor
    · intro index indexLt
      have listed : (model.unsettled targets)[index]? =
          some (model.unsettled targets)[index] := List.getElem?_eq_getElem indexLt
      have known := ((wellFormed.mem_unsettled_iff _).mp (List.mem_of_getElem? listed)).1
      rw [← extend_of_listed values listed]
      exact super.probability _ known
    · intro constraint member
      obtain ⟨state, index, listed, offer, offered, produced⟩ :=
        (mem_constraints_iff constraint).mp member
      obtain ⟨known, standing⟩ :=
        (wellFormed.mem_unsettled_iff state).mp (List.mem_of_getElem? listed)
      refine (meaning listed offered).mpr ?_ constraint produced
      rw [← extend_of_listed values listed]
      exact super.promised state known standing offer offered

omit [TransOrd A] in
theorem WellFormed.exists_extend_eq {others : S → Rat}
    (super : model.Supersolution targets others) :
    ∃ values, ∀ state, model.contains state = true →
      model.extend targets values state = others state := by
  refine ⟨fun index => ((model.unsettled targets)[index]?.map others).getD 0, ?_⟩
  intro state known
  cases standing : model.classification targets state with
  | target =>
      rw [super.target state known standing]
      exact wellFormed.extend_of_target _ known standing
  | unreachable =>
      rw [super.unreachable state known standing]
      exact wellFormed.extend_of_unreachable _ known standing
  | unknown =>
      obtain ⟨index, listed⟩ := wellFormed.exists_listed known standing
      rw [extend_of_listed _ listed, listed]
      rfl

omit wellFormed [TransOrd A] in
theorem objective_reachProgram (values : Nat → Rat) :
    (model.reachProgram (model.classify targets)).objective values =
      ((model.unsettled targets).map (model.extend targets values)).sum := by
  have fromZero := foldl_add_eq_add_sum
    ((List.range (model.unsettled targets).length).map values) 0
  rw [zero_add] at fromZero
  have sameValues : (List.range (model.unsettled targets).length).map values =
      (model.unsettled targets).map (model.extend targets values) := by
    apply List.ext_getElem
    · simp
    · intro index _ indexLt
      rw [List.length_map] at indexLt
      rw [List.getElem_map, List.getElem_map, List.getElem_range,
        extend_of_listed values (List.getElem?_eq_getElem indexLt)]
  rw [← sameValues]
  exact fromZero

/-- An optimal assignment stands for a supersolution with the smallest sum. -/
theorem WellFormed.supersolution_of_optimal (resolved : model.Resolved) {values : Nat → Rat}
    (optimal : (model.reachProgram (model.classify targets)).Optimal values) :
    model.Supersolution targets (model.extend targets values) ∧
      ∀ others, model.Supersolution targets others →
        ((model.unsettled targets).map (model.extend targets values)).sum ≤
          ((model.unsettled targets).map others).sum := by
  refine ⟨(wellFormed.feasible_iff resolved values).mp optimal.1, fun others super => ?_⟩
  obtain ⟨assigned, agree⟩ := wellFormed.exists_extend_eq super
  have assignedSuper := wellFormed.supersolution_congr
    (fun state known => (agree state known).symm) super
  have below := optimal.2 assigned ((wellFormed.feasible_iff resolved assigned).mpr assignedSuper)
  rw [objective_reachProgram, objective_reachProgram] at below
  have sameSum : (model.unsettled targets).map (model.extend targets assigned) =
      (model.unsettled targets).map others := by
    apply List.map_congr_left
    intro state member
    exact agree state ((wellFormed.mem_unsettled_iff state).mp member).1
  rwa [sameSum] at below

/-- All ones promise enough, if the probabilities of every action sum to at most one. -/
theorem WellFormed.ones_feasible (proper : model.Substochastic) :
    (model.reachProgram (model.classify targets)).Feasible fun _ => 1 := by
  refine ⟨fun _ _ => ⟨zero_le_one, le_refl _⟩, fun constraint member => ?_⟩
  obtain ⟨state, index, listed, offer, offered, produced⟩ :=
    (mem_constraints_iff constraint).mp member
  refine actionConstraint?_holds_one ((getElem?_positions_iff nodup_unsettled state index).mpr listed)
    unsettled_positions_injective (proper.nonneg state offer offered)
    (proper.total_le_one state offer offered) ?_ produced
  refine proper.expected_le offered zero_le_one fun entry entryMem => ?_
  exact (wellFormed.extend_probability (fun _ => 1) (fun _ _ => ⟨zero_le_one, le_refl _⟩)
    (wellFormed.contains_entry offered entryMem)).2

theorem WellFormed.exists_feasible (resolved : model.Resolved) :
    ∃ values, (model.reachProgram (model.classify targets)).Feasible values :=
  ⟨_, wellFormed.ones_feasible resolved.toSubstochastic⟩

end Classified

end Model

end MarkovDecision
