import Mathlib.Algebra.BigOperators.Fin
import MarkovDecision.Proofs.Reachability.Solvable

/-!
# What the rows of the linear program say

The inequality of Bellman for an unsettled state and one of its actions has a coefficient for every
unsettled state: one for the state itself, less the probabilities.  What the settled states promise
is its bound.  The row that is posted for it keeps the coefficients that are not too small, and
counts the others as zero.  So it says the same as the inequality where no coefficient is small,
and differs by little where some are.
-/

namespace MarkovDecision

open Std (TreeMap TransOrd LawfulEqOrd)

namespace Model

variable {S A : Type} [Ord S]

/-- The coefficient of another state in the inequality of Bellman for a state and an action. -/
def bellmanCoefficient (state : S) (distribution : Distribution S Rat) (other : S) : Rat :=
  (if compare state other = .eq then 1 else 0) - distribution.getD other 0

/-- What an action promises by the settled states alone. -/
def settledPromise (model : Model S A Rat) (targets : LabelSet S)
    (distribution : Distribution S Rat) : Rat :=
  expected distribution (model.extend targets fun _ => 0)

/-- By how much a state is worth more than an action promises, with a rule applied to the
coefficients of the unsettled states. -/
def surplus (model : Model S A Rat) (targets : LabelSet S) (rule : Rat → Rat) (state : S)
    (distribution : Distribution S Rat) (worth : S → Rat) : Rat :=
  ((model.unsettled targets).map fun other =>
    rule (bellmanCoefficient state distribution other) * worth other).sum -
      model.settledPromise targets distribution

/-- The unsettled states whose coefficients are not posted as they are. -/
def rounded (model : Model S A Rat) (targets : LabelSet S) (state : S)
    (distribution : Distribution S Rat) : List S :=
  (model.unsettled targets).filter fun other =>
    retained (bellmanCoefficient state distribution other) ≠
      bellmanCoefficient state distribution other

/-- The inequality has no coefficient that is posted. -/
def LeavesNoTerm (model : Model S A Rat) (targets : LabelSet S) (state : S)
    (distribution : Distribution S Rat) : Prop :=
  ∀ other ∈ model.unsettled targets, retained (bellmanCoefficient state distribution other) = 0

variable [TransOrd S] [LawfulEqOrd S] {model : Model S A Rat} {targets : LabelSet S}

section Row

variable {state : S} {own : Nat} (listed : (model.unsettled targets)[own]? = some state)
  (distribution : Distribution S Rat)
include listed

theorem getD_gathered_eq_bellmanCoefficient {other : S} {index : Nat}
    (otherListed : (model.unsettled targets)[index]? = some other) :
    (gathered (settledValues (model.classify targets)) (positions (model.unsettled targets)) own
        distribution).1.getD index 0 = bellmanCoefficient state distribution other := by
  have otherIndex := (getElem?_positions_iff nodup_unsettled other index).mpr otherListed
  rw [getD_gathered _ _ _ _ otherIndex fun another anotherIndex =>
    unsettled_positions_injective another other index anotherIndex otherIndex, bellmanCoefficient]
  congr 1
  have sameIff : own = index ↔ compare state other = .eq := by
    rw [Std.compare_eq_iff_eq]
    constructor
    · rintro rfl
      rw [listed] at otherListed
      exact Option.some.inj otherListed
    · rintro rfl
      exact (List.getElem?_inj (List.getElem?_eq_some_iff.mp listed).1 nodup_unsettled).mp
        (listed.trans otherListed.symm)
  simp only [sameIff]

theorem exists_listed_of_contains_gathered {index : Nat}
    (present : (gathered (settledValues (model.classify targets))
      (positions (model.unsettled targets)) own distribution).1.contains index = true) :
    ∃ other, (model.unsettled targets)[index]? = some other := by
  rcases contains_gathered _ _ _ _ present with rfl | ⟨other, otherIndex⟩
  · exact ⟨state, listed⟩
  · exact ⟨other, (getElem?_positions_iff nodup_unsettled other index).mp otherIndex⟩

theorem sum_gathered_eq (rule : Rat → Rat) (ruleZero : rule 0 = 0) (values : Nat → Rat) :
    ((gathered (settledValues (model.classify targets)) (positions (model.unsettled targets)) own
        distribution).1.toList.map fun entry => rule entry.2 * values entry.1).sum =
      ((model.unsettled targets).map fun other =>
        rule (bellmanCoefficient state distribution other) *
          model.extend targets values other).sum := by
  let row := (gathered (settledValues (model.classify targets))
    (positions (model.unsettled targets)) own distribution).1
  let names := model.unsettled targets
  have isExpected : (row.toList.map fun entry => rule entry.2 * values entry.1).sum =
      expected (row.map fun _ coefficient => rule coefficient) values := by
    rw [expected, TreeMap.toList_map, List.map_map]
    rfl
  have covers : ∀ index, (row.map fun _ coefficient => rule coefficient).contains index = true →
      index ∈ Finset.range names.length := by
    intro index present
    rw [TreeMap.contains_map] at present
    obtain ⟨other, found⟩ := exists_listed_of_contains_gathered listed distribution present
    exact Finset.mem_range.mpr (List.getElem?_eq_some_iff.mp found).1
  have termEq (index : Fin names.length) :
      (row.map fun _ coefficient => rule coefficient).getD index.val 0 * values index.val =
        rule (bellmanCoefficient state distribution names[index]) *
          model.extend targets values names[index] := by
    have found : names[index.val]? = some names[index] := List.getElem?_eq_getElem index.isLt
    have ruled : (row.map fun _ coefficient => rule coefficient).getD index.val 0 =
        rule (row.getD index.val 0) := by
      rw [TreeMap.getD_map, TreeMap.getD_eq_getD_getElem?]
      cases row[index.val]? with
      | none => exact ruleZero.symm
      | some coefficient => rfl
    rw [ruled, getD_gathered_eq_bellmanCoefficient listed distribution found,
      extend_of_listed values found]
  calc (row.toList.map fun entry => rule entry.2 * values entry.1).sum
      = ∑ index : Fin names.length, (row.map fun _ coefficient => rule coefficient).getD
          index.val 0 * values index.val := by
        rw [isExpected, expected_eq_sum _ values _ covers, Finset.sum_range]
    _ = ∑ index : Fin names.length, rule (bellmanCoefficient state distribution names[index]) *
          model.extend targets values names[index] := Finset.sum_congr rfl fun index _ => termEq index
    _ = _ := by
        rw [← List.sum_ofFn]
        congr 1
        apply List.ext_getElem
        · simp [names]
        · intro index _ _
          simp [names]

/-- Without a rule, the surplus of a state is what it is worth beyond the promise of the action. -/
theorem surplus_id_eq (values : Nat → Rat) :
    model.surplus targets id state distribution (model.extend targets values) =
      model.extend targets values state - expected distribution (model.extend targets values) := by
  have balance := expected_gathered (settledValues (model.classify targets))
    (positions (model.unsettled targets)) own distribution values
  rw [gathered_bound] at balance
  have sumEq := sum_gathered_eq listed distribution id rfl values
  simp only [id_eq] at sumEq
  rw [expected, sumEq] at balance
  rw [extend_of_listed values listed]
  exact balance

/-- A row is left out where it would have no term. -/
theorem actionConstraint?_eq_none_iff :
    actionConstraint? (settledValues (model.classify targets)) (positions (model.unsettled targets))
        own distribution = none ↔ model.LeavesNoTerm targets state distribution := by
  rw [actionConstraint?_eq, ite_eq_left_iff, List.isEmpty_iff, significantTerms,
    List.filter_eq_nil_iff]
  simp only [reduceCtorEq, imp_false, not_not, decide_eq_true_eq, magnitude_eq_abs,
    ← retained_eq_zero_iff]
  constructor
  · intro small other member
    obtain ⟨index, found⟩ := List.mem_iff_getElem?.mp member
    rw [← getD_gathered_eq_bellmanCoefficient listed distribution found,
      TreeMap.getD_eq_getD_getElem?]
    cases entryEq : (gathered (settledValues (model.classify targets))
        (positions (model.unsettled targets)) own distribution).1[index]? with
    | none => exact retained_zero
    | some coefficient =>
        exact small (index, coefficient) (TreeMap.mem_toList_iff_getElem?_eq_some.mpr entryEq)
  · rintro noTerm ⟨index, coefficient⟩ member
    have entryEq := TreeMap.mem_toList_iff_getElem?_eq_some.mp member
    have present : (gathered (settledValues (model.classify targets))
        (positions (model.unsettled targets)) own distribution).1.contains index = true := by
      rw [TreeMap.contains_eq_isSome_getElem?, entryEq]
      rfl
    obtain ⟨other, found⟩ := exists_listed_of_contains_gathered listed distribution present
    have coefficientEq := getD_gathered_eq_bellmanCoefficient listed distribution found
    rw [TreeMap.getD_eq_getD_getElem?, entryEq, Option.getD_some] at coefficientEq
    rw [coefficientEq]
    exact noTerm other (List.mem_of_getElem? found)

/-- A row that is posted asks for a surplus after its coefficients are rounded. -/
theorem actionConstraint?_holds_iff_surplus {constraint : Constraint Rat}
    (produced : actionConstraint? (settledValues (model.classify targets))
      (positions (model.unsettled targets)) own distribution = some constraint)
    (values : Nat → Rat) :
    constraint.Holds values ↔
      0 ≤ model.surplus targets retained state distribution (model.extend targets values) := by
  rw [actionConstraint?_eq] at produced
  split at produced
  · cases produced
  · cases produced
    rw [Constraint.Holds, Constraint.combination_eq_sum, sum_significantTerms_eq_retained,
      sum_gathered_eq listed distribution retained retained_zero, gathered_bound, surplus, sub_nonneg]
    rfl

end Row

section Rounding

variable {state : S} {distribution : Distribution S Rat} {worth : S → Rat}

omit [TransOrd S] [LawfulEqOrd S] in
theorem LeavesNoTerm.surplus_eq (noTerm : model.LeavesNoTerm targets state distribution) :
    model.surplus targets retained state distribution worth =
      -model.settledPromise targets distribution := by
  have allZero : ((model.unsettled targets).map fun other =>
      retained (bellmanCoefficient state distribution other) * worth other).sum = 0 := by
    apply List.sum_eq_zero
    intro term member
    obtain ⟨other, isUnsettled, rfl⟩ := List.mem_map.mp member
    rw [noTerm other isUnsettled, zero_mul]
  rw [surplus, allZero, zero_sub]

theorem abs_sum_sub_sum_le {E : Type} (entries : List E) {first second : E → Rat} {amount : Rat}
    {differs : E → Bool}
    (close : ∀ entry ∈ entries,
      |first entry - second entry| ≤ if differs entry = true then amount else 0) :
    |(entries.map first).sum - (entries.map second).sum| ≤
      (entries.filter differs).length * amount := by
  induction entries with
  | nil => simp
  | cons entry entries ih =>
      have restLe := ih fun other member => close other (List.mem_cons_of_mem entry member)
      have entryLe := close entry List.mem_cons_self
      have countEq : (((entry :: entries).filter differs).length : Rat) * amount =
          (if differs entry = true then amount else 0) +
            ((entries.filter differs).length : Rat) * amount := by
        rw [List.filter_cons]
        split
        · rw [List.length_cons, Nat.cast_succ]
          ring
        · rw [zero_add]
      rw [countEq, List.map_cons, List.map_cons, List.sum_cons, List.sum_cons, add_sub_add_comm]
      exact (abs_add_le _ _).trans (add_le_add entryLe restLe)

omit [TransOrd S] [LawfulEqOrd S] in
/-- Rounding a coefficient changes the surplus by no more than what counts as small. -/
theorem abs_surplus_retained_sub_le
    (box : ∀ other ∈ model.unsettled targets, 0 ≤ worth other ∧ worth other ≤ 1) :
    |model.surplus targets retained state distribution worth -
        model.surplus targets id state distribution worth| ≤
      (model.rounded targets state distribution).length * negligible := by
  rw [surplus, surplus, sub_sub_sub_cancel_right, rounded]
  apply abs_sum_sub_sum_le
  intro other member
  obtain ⟨nonneg, atMostOne⟩ := box other member
  by_cases same : retained (bellmanCoefficient state distribution other) =
      bellmanCoefficient state distribution other
  · simp [same]
  · rw [if_pos (decide_eq_true same), ← sub_mul, abs_mul, abs_of_nonneg nonneg]
    exact (mul_le_of_le_one_right (abs_nonneg _) atMostOne).trans (abs_retained_sub_le _)

end Rounding

variable [Ord A]

/-- The constraints for an assignment of the variables, which stands for what each state is worth,
say what the inequalities of Bellman say with their small coefficients left out: they hold if all
the rounded inequalities do, and then each of these does. -/
structure EncodesBellman (model : Model S A Rat) (targets : LabelSet S) (values : Nat → Rat)
    (worth : S → Rat) : Prop where
  target : ∀ state, model.contains state = true →
    model.classification targets state = .target → worth state = 1
  unreachable : ∀ state, model.contains state = true →
    model.classification targets state = .unreachable → worth state = 0
  unknown : ∀ (index : Nat) (state : S), (model.unsettled targets)[index]? = some state →
    worth state = values index
  holds : (∀ state, model.contains state = true → model.classification targets state = .unknown →
      ∀ offer ∈ (model.actions state).toList,
        0 ≤ model.surplus targets retained state offer.2 worth) →
    ∀ constraint ∈ (model.reachProgram (model.classify targets)).constraints,
      constraint.Holds values
  /-- Of an inequality that has a bound but no coefficient that is posted, nothing is said. -/
  rounded_of_holds : (∀ constraint ∈ (model.reachProgram (model.classify targets)).constraints,
      constraint.Holds values) →
    ∀ state, model.contains state = true → model.classification targets state = .unknown →
      ∀ offer ∈ (model.actions state).toList,
        (model.LeavesNoTerm targets state offer.2 → model.settledPromise targets offer.2 = 0) →
          0 ≤ model.surplus targets retained state offer.2 worth
  /-- Without a small coefficient the rounded inequality is the one of Bellman. -/
  exact : ∀ state, model.contains state = true → model.classification targets state = .unknown →
    ∀ offer ∈ (model.actions state).toList, model.rounded targets state offer.2 = [] →
      (0 ≤ model.surplus targets retained state offer.2 worth ↔
        expected offer.2 worth ≤ worth state)
  close : ∀ state, model.contains state = true → model.classification targets state = .unknown →
    ∀ offer ∈ (model.actions state).toList,
      |model.surplus targets retained state offer.2 worth -
          (worth state - expected offer.2 worth)| ≤
        (model.rounded targets state offer.2).length * negligible
  /-- A row is left out if and only if it would have no term, and one without a bound would say
  nothing, whatever the states are worth. -/
  left_out : ∀ (index : Nat) (state : S), (model.unsettled targets)[index]? = some state →
    ∀ offer ∈ (model.actions state).toList,
      (actionConstraint? (settledValues (model.classify targets))
          (positions (model.unsettled targets)) index offer.2 = none ↔
        model.LeavesNoTerm targets state offer.2) ∧
      (model.LeavesNoTerm targets state offer.2 → model.settledPromise targets offer.2 = 0 →
        ∀ others, model.surplus targets retained state offer.2 others = 0)

section Program

variable (wellFormed : model.WellFormed)
include wellFormed

/-- An assignment meets the constraints if and only if every unsettled state is worth at least what
each of its actions promises, as far as the coefficients are posted. -/
theorem WellFormed.holds_iff_surplus (values : Nat → Rat) :
    (∀ constraint ∈ (model.reachProgram (model.classify targets)).constraints,
        constraint.Holds values) ↔
      ∀ state, model.contains state = true → model.classification targets state = .unknown →
        ∀ offer ∈ (model.actions state).toList,
          (model.LeavesNoTerm targets state offer.2 → model.settledPromise targets offer.2 = 0) →
            0 ≤ model.surplus targets retained state offer.2 (model.extend targets values) := by
  constructor
  · intro meets state known standing offer offered unlessEmpty
    obtain ⟨index, listed⟩ := wellFormed.exists_listed known standing
    cases produced : actionConstraint? (settledValues (model.classify targets))
        (positions (model.unsettled targets)) index offer.2 with
    | none =>
        have noTerm := (actionConstraint?_eq_none_iff listed offer.2).mp produced
        rw [noTerm.surplus_eq, unlessEmpty noTerm, neg_zero]
    | some constraint =>
        rw [← actionConstraint?_holds_iff_surplus listed offer.2 produced]
        exact meets constraint
          ((mem_constraints_iff constraint).mpr ⟨state, index, listed, offer, offered, produced⟩)
  · intro promised constraint member
    obtain ⟨state, index, listed, offer, offered, produced⟩ :=
      (mem_constraints_iff constraint).mp member
    obtain ⟨known, standing⟩ :=
      (wellFormed.mem_unsettled_iff state).mp (List.mem_of_getElem? listed)
    rw [actionConstraint?_holds_iff_surplus listed offer.2 produced]
    refine promised state known standing offer offered fun noTerm => ?_
    rw [(actionConstraint?_eq_none_iff listed offer.2).mpr noTerm] at produced
    cases produced

theorem WellFormed.close_of_box {values : Nat → Rat}
    (box : ∀ index, index < (model.unsettled targets).length →
      0 ≤ values index ∧ values index ≤ 1) {state : S} (known : model.contains state = true)
    (standing : model.classification targets state = .unknown) (distribution : Distribution S Rat) :
    |model.surplus targets retained state distribution (model.extend targets values) -
        (model.extend targets values state -
          expected distribution (model.extend targets values))| ≤
      (model.rounded targets state distribution).length * negligible := by
  obtain ⟨index, listed⟩ := wellFormed.exists_listed known standing
  rw [← surplus_id_eq listed distribution values]
  apply abs_surplus_retained_sub_le
  intro other member
  obtain ⟨otherIndex, otherListed⟩ := List.mem_iff_getElem?.mp member
  rw [extend_of_listed values otherListed]
  exact box otherIndex (List.getElem?_eq_some_iff.mp otherListed).1

theorem WellFormed.encodesBellman {values : Nat → Rat}
    (box : ∀ index, index < (model.unsettled targets).length →
      0 ≤ values index ∧ values index ≤ 1) :
    model.EncodesBellman targets values (model.extend targets values) where
  target _ := wellFormed.extend_of_target values
  unreachable _ := wellFormed.extend_of_unreachable values
  unknown _ _ := extend_of_listed values
  holds promised := (wellFormed.holds_iff_surplus values).mpr
    fun state known standing offer offered _ => promised state known standing offer offered
  rounded_of_holds := (wellFormed.holds_iff_surplus values).mp
  exact state known standing offer offered noneRounded := by
    have same := wellFormed.close_of_box box known standing offer.2
    rw [noneRounded, List.length_nil, Nat.cast_zero, zero_mul] at same
    rw [sub_eq_zero.mp (abs_nonpos_iff.mp same), sub_nonneg]
  close _ known standing offer _ := wellFormed.close_of_box box known standing offer.2
  left_out _ _ listed offer _ := ⟨actionConstraint?_eq_none_iff listed offer.2,
    fun noTerm noBound _ => by rw [noTerm.surplus_eq, noBound, neg_zero]⟩

end Program

section Tables

variable {costs : CostTable S A Rat} {distributions : DistributionTable S A Rat} [TransOrd A]

/-- The program for an accepted model encodes the inequalities of Bellman, except for coefficients
that are too small. -/
theorem ofTables_encodesBellman {model : Model S A Rat}
    (built : ofTables costs distributions = .ok model) (targets : LabelSet S) {values : Nat → Rat}
    (box : ∀ index, index < (model.unsettled targets).length →
      0 ≤ values index ∧ values index ≤ 1) :
    model.EncodesBellman targets values (model.extend targets values) := by
  obtain ⟨-, rfl⟩ := (ofTables_eq_ok_iff costs distributions model).mp built
  exact (wellFormed_construct (tableCalls costs distributions)).encodesBellman box

/-- One action at state 0, and one at state 2. -/
def twoActions : CostTable Nat Nat Rat :=
  TreeMap.ofList [(0, TreeMap.ofList [(0, (-1 : Rat))]), (2, TreeMap.ofList [(1, (-1 : Rat))])]

/-- The action of state 0 stays but for a chance of `2 ^ -38`, an eighth of which leads to state 2,
from which the other action goes on to state 1. -/
def almostStaying : DistributionTable Nat Nat Rat :=
  TreeMap.ofList [
    (0, TreeMap.ofList [(0, (1 - 1 / 2 ^ 38 : Rat)), (2, (1 / 2 ^ 41 : Rat)),
      (3, (1 / 2 ^ 38 - 1 / 2 ^ 41 : Rat))]),
    (1, TreeMap.ofList [(1, (1 : Rat))])]

/-- The variable of state 0 is zero and that of state 2 is one. -/
def onlySecond (index : Nat) : Rat :=
  if index = 1 then 1 else 0

theorem onlySecond_box (index : Nat) : 0 ≤ onlySecond index ∧ onlySecond index ≤ 1 := by
  unfold onlySecond
  split <;> norm_num

/-- The theorem at work on a row that loses the coefficient of state 2. -/
theorem ofTables_encodesBellman_almostStaying :
    ∃ model, ofTables twoActions almostStaying = .ok model ∧
      model.unsettled {1} = [0, 2] ∧
      (∃ offer ∈ (model.actions 0).toList, model.rounded {1} 0 offer.2 = [2]) ∧
      model.EncodesBellman {1} onlySecond (model.extend {1} onlySecond) := by
  obtain ⟨model, built⟩ := exists_eq_ok
    (show (ofTables twoActions almostStaying).isOk = true by decide +kernel)
  have facts : ∀ model ∈ (ofTables twoActions almostStaying).toOption,
      model.unsettled {1} = [0, 2] ∧
        ∃ offer ∈ (model.actions 0).toList, model.rounded {1} 0 offer.2 = [2] := by
    decide +kernel
  obtain ⟨unsettledEq, roundedEq⟩ := facts model (mem_toOption_of_eq_ok built)
  exact ⟨model, built, unsettledEq, roundedEq,
    ofTables_encodesBellman built {1} fun index _ => onlySecond_box index⟩

/-- With state 0 worth nothing, although its action promises an eighth of what leaves it, all
constraints hold: the coefficient of state 2 is too small to be posted. -/
theorem holds_below_promise_almostStaying :
    ∃ model, ofTables twoActions almostStaying = .ok model ∧
      (∀ index, 0 ≤ onlySecond index ∧ onlySecond index ≤ 1) ∧
      (∀ constraint ∈ (model.reachProgram (model.classify {1})).constraints,
        constraint.Holds onlySecond) ∧
      model.classification {1} 0 = .unknown ∧
      ∃ offer ∈ (model.actions 0).toList,
        model.extend {1} onlySecond 0 < expected offer.2 (model.extend {1} onlySecond) := by
  obtain ⟨model, built⟩ := exists_eq_ok
    (show (ofTables twoActions almostStaying).isOk = true by decide +kernel)
  have facts : ∀ model ∈ (ofTables twoActions almostStaying).toOption,
      (∀ constraint ∈ (model.reachProgram (model.classify {1})).constraints,
        constraint.bound ≤ constraint.combination onlySecond) ∧
      model.classification {1} 0 = .unknown ∧
      ∃ offer ∈ (model.actions 0).toList,
        model.extend {1} onlySecond 0 < expected offer.2 (model.extend {1} onlySecond) := by
    decide +kernel
  exact ⟨model, built, onlySecond_box, facts model (mem_toOption_of_eq_ok built)⟩

end Tables

end Model

end MarkovDecision
