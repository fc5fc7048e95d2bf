import Mathlib.Algebra.BigOperators.Group.Finset.Piecewise
import Mathlib.Algebra.BigOperators.Ring.List
import Mathlib.Algebra.Order.BigOperators.Group.List
import MarkovDecision.Proofs.Model.WellFormed
import MarkovDecision.Proofs.Numbers

/-!
# Expected values

The expected value of a function over a distribution, and the greatest of finitely many values.
A sum over the entries of a table is also a sum over any finite set of keys that covers them,
which is how tables with different entries are compared.
-/

namespace MarkovDecision

open Std (TreeMap TransOrd LawfulEqOrd)

section Expected

variable {S : Type} [Ord S]

/-- The sum of the probabilities of a distribution. -/
def totalProbability (distribution : Distribution S Rat) : Rat :=
  (distribution.toList.map fun entry => entry.2).sum

/-- The expected value of a function over a distribution. -/
def expected (distribution : Distribution S Rat) (values : S → Rat) : Rat :=
  (distribution.toList.map fun entry => entry.2 * values entry.1).sum

theorem expected_congr {distribution : Distribution S Rat} {first second : S → Rat}
    (agree : ∀ entry ∈ distribution.toList, first entry.1 = second entry.1) :
    expected distribution first = expected distribution second := by
  unfold expected
  congr 1
  apply List.map_congr_left
  intro entry member
  rw [agree entry member]

theorem expected_le_expected {distribution : Distribution S Rat} {first second : S → Rat}
    (nonneg : ∀ entry ∈ distribution.toList, 0 ≤ entry.2)
    (below : ∀ entry ∈ distribution.toList, first entry.1 ≤ second entry.1) :
    expected distribution first ≤ expected distribution second := by
  apply List.sum_le_sum
  intro entry member
  exact mul_le_mul_of_nonneg_left (below entry member) (nonneg entry member)

theorem expected_nonneg {distribution : Distribution S Rat} {values : S → Rat}
    (nonneg : ∀ entry ∈ distribution.toList, 0 ≤ entry.2)
    (valuesNonneg : ∀ entry ∈ distribution.toList, 0 ≤ values entry.1) :
    0 ≤ expected distribution values := by
  apply List.sum_nonneg
  intro share member
  obtain ⟨entry, entryMem, rfl⟩ := List.mem_map.mp member
  exact mul_nonneg (nonneg entry entryMem) (valuesNonneg entry entryMem)

theorem expected_const (distribution : Distribution S Rat) (value : Rat) :
    expected distribution (fun _ => value) = totalProbability distribution * value := by
  unfold expected totalProbability
  induction distribution.toList with
  | nil => simp
  | cons entry entries ih => simp only [List.map_cons, List.sum_cons, ih, add_mul]

theorem expected_add (distribution : Distribution S Rat) (first second : S → Rat) :
    expected distribution (fun state => first state + second state) =
      expected distribution first + expected distribution second := by
  unfold expected
  induction distribution.toList with
  | nil => simp
  | cons entry entries ih =>
      simp only [List.map_cons, List.sum_cons, ih]
      ring

theorem expected_sub (distribution : Distribution S Rat) (first second : S → Rat) :
    expected distribution (fun state => first state - second state) =
      expected distribution first - expected distribution second := by
  unfold expected
  induction distribution.toList with
  | nil => simp
  | cons entry entries ih =>
      simp only [List.map_cons, List.sum_cons, ih]
      ring

theorem expected_const_mul (distribution : Distribution S Rat) (factor : Rat) (values : S → Rat) :
    expected distribution (fun state => factor * values state) =
      factor * expected distribution values := by
  unfold expected
  induction distribution.toList with
  | nil => simp
  | cons entry entries ih =>
      simp only [List.map_cons, List.sum_cons, ih]
      ring

theorem expected_finset_sum {I : Type} (distribution : Distribution S Rat) (indices : Finset I)
    (values : I → S → Rat) :
    expected distribution (fun state => ∑ index ∈ indices, values index state) =
      ∑ index ∈ indices, expected distribution (values index) := by
  classical
  induction indices using Finset.induction_on with
  | empty => simpa using expected_const distribution 0
  | insert index indices absent ih =>
      simp only [Finset.sum_insert absent, expected_add, ih]

@[simp]
theorem expected_empty (values : S → Rat) :
    expected (∅ : Distribution S Rat) values = 0 :=
  rfl

variable [TransOrd S] [LawfulEqOrd S]

theorem expected_eq_sum (distribution : Distribution S Rat) (values : S → Rat)
    (states : Finset S) (covers : ∀ state, distribution.contains state = true → state ∈ states) :
    expected distribution values = ∑ state ∈ states, distribution.getD state 0 * values state := by
  classical
  have byKeys : expected distribution values =
      (distribution.keys.map fun state => distribution.getD state 0 * values state).sum := by
    rw [expected, ← TreeMap.map_fst_toList_eq_keys, List.map_map]
    congr 1
    apply List.map_congr_left
    intro entry member
    have found := TreeMap.mem_toList_iff_getElem?_eq_some.mp member
    simp [TreeMap.getD_eq_getD_getElem?, found]
  have isSubset : distribution.keys.toFinset ⊆ states := by
    intro state member
    exact covers state (TreeMap.mem_keys.mp (List.mem_toFinset.mp member))
  rw [byKeys, ← List.sum_toFinset _ TreeMap.nodup_keys]
  apply Finset.sum_subset isSubset
  intro state _ absent
  have notKey : distribution.contains state = false := by
    rw [Bool.eq_false_iff]
    intro present
    exact absent (List.mem_toFinset.mpr (TreeMap.mem_keys.mpr present))
  rw [TreeMap.getD_eq_fallback_of_contains_eq_false notKey, zero_mul]

theorem expected_indicator (distribution : Distribution S Rat) (target : S) {values : S → Rat}
    (isOne : values target = 1) (isZero : ∀ state, state ≠ target → values state = 0) :
    expected distribution values = distribution.getD target 0 := by
  classical
  rw [expected_eq_sum _ values (insert target distribution.keys.toFinset)]
  · rw [Finset.sum_eq_single target, isOne, mul_one]
    · intro state _ other
      rw [isZero state other, mul_zero]
    · intro absent
      exact (absent (Finset.mem_insert_self _ _)).elim
  · intro state present
    exact Finset.mem_insert_of_mem (List.mem_toFinset.mpr (TreeMap.mem_keys.mpr present))

theorem getD_nonneg {distribution : Distribution S Rat}
    (nonneg : ∀ entry ∈ distribution.toList, 0 ≤ entry.2) (state : S) :
    0 ≤ distribution.getD state 0 := by
  rw [TreeMap.getD_eq_getD_getElem?]
  cases found : distribution[state]? with
  | none => exact le_refl _
  | some probability =>
      exact nonneg (state, probability) (TreeMap.mem_toList_iff_getElem?_eq_some.mpr found)

/-- An expected value of numbers that are not negative is at least what any two different states
contribute to it. -/
theorem shares_le_expected {distribution : Distribution S Rat}
    (nonneg : ∀ entry ∈ distribution.toList, 0 ≤ entry.2) (values : S → Rat)
    (valuesNonneg : ∀ entry ∈ distribution.toList, 0 ≤ values entry.1) {first second : S}
    (different : first ≠ second) :
    distribution.getD first 0 * values first + distribution.getD second 0 * values second ≤
      expected distribution values := by
  classical
  let indicator (target state : S) : Rat := if state = target then 1 else 0
  have share (target : S) :
      expected distribution (fun state => values target * indicator target state) =
        values target * distribution.getD target 0 := by
    rw [expected_const_mul, expected_indicator distribution target (if_pos rfl)
      fun state other => if_neg other]
  have below : expected distribution (fun state => values first * indicator first state) ≤
      expected distribution fun state => values state - values second * indicator second state := by
    refine expected_le_expected nonneg fun entry member => ?_
    by_cases isFirst : entry.1 = first
    · simp [indicator, isFirst, different]
    · by_cases isSecond : entry.1 = second
      · simp [indicator, isSecond, different.symm]
      · simpa [indicator, isFirst, isSecond] using valuesNonneg entry member
  rw [share, expected_sub, share] at below
  linarith

/-- Two different states have no more than the total probability. -/
theorem getD_add_getD_le {distribution : Distribution S Rat}
    (nonneg : ∀ entry ∈ distribution.toList, 0 ≤ entry.2) {first second : S}
    (different : first ≠ second) :
    distribution.getD first 0 + distribution.getD second 0 ≤ totalProbability distribution := by
  have shares := shares_le_expected nonneg (fun _ => 1) (fun _ _ => zero_le_one) different
  rwa [expected_const, mul_one, mul_one, mul_one] at shares

theorem expected_alter (distribution : Distribution S Rat) (target : S) (probability : Rat)
    (values : S → Rat) :
    expected (distribution.alter target fun probability? =>
        some (probability?.getD 0 + probability)) values =
      expected distribution values + probability * values target := by
  classical
  have covers : ∀ state, distribution.contains state = true →
      state ∈ insert target distribution.keys.toFinset := by
    intro state present
    exact Finset.mem_insert_of_mem (List.mem_toFinset.mpr (TreeMap.mem_keys.mpr present))
  rw [expected_eq_sum _ values _ covers, expected_eq_sum _ values
    (insert target distribution.keys.toFinset)]
  · have entryEq : ∀ state, (distribution.alter target fun probability? =>
          some (probability?.getD 0 + probability)).getD state 0 * values state =
        distribution.getD state 0 * values state +
          if state = target then probability * values target else 0 := by
      intro state
      rw [TreeMap.getD_alter]
      by_cases same : state = target
      · rw [if_pos (Std.compare_eq_iff_eq.mpr same.symm), if_pos same, same,
          TreeMap.getD_eq_getD_getElem?, Option.getD_some, add_mul]
      · rw [if_neg fun equal => same (Std.compare_eq_iff_eq.mp equal).symm, if_neg same, add_zero]
    rw [Finset.sum_congr rfl fun state _ => entryEq state, Finset.sum_add_distrib,
      Finset.sum_ite_eq' _ target, if_pos (Finset.mem_insert_self _ _)]
  · intro state present
    rw [TreeMap.contains_alter] at present
    split at present
    · rename_i same
      exact Std.compare_eq_iff_eq.mp same ▸ Finset.mem_insert_self _ _
    · exact covers state present

theorem expected_eq_of_getElem?_eq {first second : Distribution S Rat}
    (sameEntries : ∀ state : S, first[state]? = second[state]?) (values : S → Rat) :
    expected first values = expected second values := by
  have equivalent : first.Equiv second := TreeMap.Equiv.of_forall_constGet?_eq sameEntries
  rw [expected, equivalent.toList_eq, expected]

/-- A distribution that gathers the probabilities of some items where they are placed has the
expected value of the items. -/
theorem expected_eq_sum_items {I : Type} {distribution : Distribution S Rat} {items : List I}
    (place : I → S) (probability : I → Rat)
    (gathers : ∀ state, distribution.getD state 0 =
      ((items.filter fun item => sameLabel (place item) state).map probability).sum)
    (values : S → Rat) :
    expected distribution values =
      (items.map fun item => probability item * values (place item)).sum := by
  classical
  let states := distribution.keys.toFinset ∪ (items.map place).toFinset
  have covers : ∀ state, distribution.contains state = true → state ∈ states := by
    intro state present
    exact Finset.mem_union_left _ (List.mem_toFinset.mpr (TreeMap.mem_keys.mpr present))
  have placed : ∀ item ∈ items, place item ∈ states := by
    intro item member
    exact Finset.mem_union_right _ (List.mem_toFinset.mpr (List.mem_map.mpr ⟨item, member, rfl⟩))
  rw [expected_eq_sum distribution values states covers]
  simp only [gathers]
  clear_value states
  clear gathers covers
  induction items with
  | nil => simp
  | cons item items ih =>
      have shareEq : ∀ state, (((item :: items).filter fun item =>
            sameLabel (place item) state).map probability).sum * values state =
          (if state = place item then probability item * values (place item) else 0) +
            ((items.filter fun item => sameLabel (place item) state).map probability).sum *
              values state := by
        intro state
        by_cases same : state = place item
        · subst same
          have fits : sameLabel (place item) (place item) = true := by simp [sameLabel]
          rw [List.filter_cons, if_pos fits, if_pos rfl, List.map_cons, List.sum_cons, add_mul]
        · have apart : ¬sameLabel (place item) state = true := by
            intro fits
            exact same (Std.compare_eq_iff_eq.mp (Ordering.isEq_iff_eq_eq.mp fits)).symm
          rw [List.filter_cons, if_neg apart, if_neg same, zero_add]
      rw [Finset.sum_congr rfl fun state _ => shareEq state, Finset.sum_add_distrib,
        Finset.sum_ite_eq' _ (place item), if_pos (placed item List.mem_cons_self),
        ih fun other member => placed other (List.mem_cons_of_mem item member), List.map_cons,
        List.sum_cons]

end Expected

section Actions

namespace Model

variable {S A : Type} [Ord S] [TransOrd S] [LawfulEqOrd S] [Ord A] [TransOrd A]

theorem expected_actions (model : Model S A Rat) {state : S} {action : A}
    {distribution : Distribution S Rat}
    (offered : (model.actions state)[action]? = some distribution) (values : S → Rat) :
    expected distribution values =
      (((model.outgoing state).filter (·.isUnder action)).map fun transition =>
        transition.probability * values transition.target).sum := by
  have gathered (transitions : List (Transition S A Rat)) (table : ActionTable S A Rat) :
      expected ((transitions.foldl addToActions table)[action]?.getD ∅) values =
        expected (table[action]?.getD ∅) values +
          ((transitions.filter (·.isUnder action)).map fun transition =>
            transition.probability * values transition.target).sum := by
    induction transitions generalizing table with
    | nil => simp
    | cons first rest ih =>
        rw [List.foldl_cons, ih, addToActions, TreeMap.getElem?_alter]
        by_cases same : compare first.action action = .eq
        · have isUnder : first.isUnder action = true := by simpa using same
          rw [if_pos same, List.filter_cons, if_pos isUnder, List.map_cons, List.sum_cons,
            Option.getD_some, expected_alter, TreeMap.getElem?_congr same, add_assoc]
        · have notUnder : ¬first.isUnder action = true := by simpa using same
          rw [if_neg same, List.filter_cons, if_neg notUnder]
  have fromEmpty := gathered (model.outgoing state) ∅
  rw [← actions, offered] at fromEmpty
  simpa using fromEmpty

end Model

end Actions

section Greatest

/-- The greatest of some values, or zero if there are none. -/
def greatest (values : List Rat) : Rat :=
  values.max?.getD 0

theorem le_greatest {values : List Rat} {value : Rat} (member : value ∈ values) :
    value ≤ greatest values := by
  cases found : values.max? with
  | none =>
      rw [List.max?_eq_none_iff] at found
      simp [found] at member
  | some largest =>
      rw [greatest, found]
      exact (List.max?_eq_some_iff.mp found).2 value member

theorem greatest_le {values : List Rat} {bound : Rat} (nonneg : 0 ≤ bound)
    (below : ∀ value ∈ values, value ≤ bound) : greatest values ≤ bound := by
  cases found : values.max? with
  | none =>
      rw [greatest, found]
      exact nonneg
  | some largest =>
      rw [greatest, found]
      exact below largest (List.max?_eq_some_iff.mp found).1

theorem greatest_nonneg {values : List Rat} (nonneg : ∀ value ∈ values, 0 ≤ value) :
    0 ≤ greatest values := by
  cases values with
  | nil => exact le_refl _
  | cons value values => exact (nonneg value (by simp)).trans (le_greatest (by simp))

theorem greatest_eq_zero {values : List Rat} (areZero : ∀ value ∈ values, value = 0) :
    greatest values = 0 :=
  le_antisymm (greatest_le (le_refl _) fun value member => (areZero value member).le)
    (greatest_nonneg fun value member => (areZero value member).ge)

theorem greatest_mem {values : List Rat} (nonempty : values ≠ []) : greatest values ∈ values := by
  cases found : values.max? with
  | none => exact (nonempty (List.max?_eq_none_iff.mp found)).elim
  | some largest =>
      rw [greatest, found]
      exact (List.max?_eq_some_iff.mp found).1

/-- If no value exceeds its counterpart by more than a gap, neither does the greatest. -/
theorem greatest_map_le_add {E : Type} {entries : List E} {first second : E → Rat} {gap : Rat}
    (nonneg : 0 ≤ gap) (close : ∀ entry ∈ entries, first entry ≤ second entry + gap) :
    greatest (entries.map first) ≤ greatest (entries.map second) + gap := by
  by_cases isEmpty : entries = []
  · rw [isEmpty]
    exact le_add_of_nonneg_right nonneg
  · obtain ⟨entry, member, isGreatest⟩ :=
      List.mem_map.mp (greatest_mem (mt List.map_eq_nil_iff.mp isEmpty))
    rw [← isGreatest]
    exact (close entry member).trans (by gcongr; exact le_greatest (List.mem_map_of_mem member))

theorem greatest_map_le {E : Type} {entries : List E} {first second : E → Rat}
    (below : ∀ entry ∈ entries, first entry ≤ second entry) :
    greatest (entries.map first) ≤ greatest (entries.map second) := by
  simpa using greatest_map_le_add (le_refl 0) (by simpa using below)

theorem abs_greatest_le {values : List Rat} {bound : Rat} (nonneg : 0 ≤ bound)
    (within : ∀ value ∈ values, |value| ≤ bound) : |greatest values| ≤ bound := by
  by_cases isEmpty : values = []
  · rw [isEmpty]
    exact abs_zero.trans_le nonneg
  · exact within _ (greatest_mem isEmpty)

theorem greatest_eq {values : List Rat} {value : Rat} (member : value ∈ values)
    (above : ∀ other ∈ values, other ≤ value) : greatest values = value :=
  le_antisymm (above _ (greatest_mem (List.ne_nil_of_mem member))) (le_greatest member)

theorem exists_pos_below (values : List Rat) :
    ∃ amount : Rat, 0 < amount ∧ ∀ value ∈ values, 0 < value → amount ≤ value := by
  induction values with
  | nil => exact ⟨1, one_pos, by simp⟩
  | cons first values ih =>
      obtain ⟨amount, amountPos, below⟩ := ih
      by_cases firstPos : 0 < first
      · refine ⟨min first amount, lt_min firstPos amountPos, ?_⟩
        intro value member valuePos
        rcases List.mem_cons.mp member with isFirst | later
        · exact isFirst ▸ min_le_left first amount
        · exact (min_le_right first amount).trans (below value later valuePos)
      · refine ⟨amount, amountPos, ?_⟩
        intro value member valuePos
        rcases List.mem_cons.mp member with isFirst | later
        · exact (firstPos (isFirst ▸ valuePos)).elim
        · exact below value later valuePos

theorem exists_firstBest?_toList {K V : Type} [Ord K] [TransOrd K] {table : TreeMap K V}
    (nonempty : table.toList ≠ []) (worth : K × V → Rat) :
    ∃ best ∈ table.toList,
      Number.firstBest? (table.toList.map fun entry => (entry.1, worth entry)) =
        some (best.1, worth best) ∧
      ∀ other ∈ table.toList, worth other ≤ worth best ∧
        (worth other = worth best → (compare best.1 other.1).isLE = true) := by
  obtain ⟨before, chosen, after, split, found, aboveEarlier, aboveLater⟩ :=
    exists_firstBest? (mt (List.map_eq_nil_iff (f := fun entry => (entry.1, worth entry))).mp
      nonempty)
  obtain ⟨earlier, onward, listEq, rfl, onwardEq⟩ := List.map_eq_append_iff.mp split
  obtain ⟨best, later, rfl, rfl, rfl⟩ := List.map_eq_cons_iff.mp onwardEq
  have ordered := TreeMap.ordered_keys_toList (t := table)
  rw [listEq] at ordered
  obtain ⟨beforeLater, -⟩ := List.pairwise_cons.mp (List.pairwise_append.mp ordered).2.1
  refine ⟨best, by simp [listEq], found, fun other otherMem => ?_⟩
  rw [listEq, List.mem_append, List.mem_cons] at otherMem
  rcases otherMem with isEarlier | rfl | isLater
  · have isLess := aboveEarlier _ (List.mem_map.mpr ⟨other, isEarlier, rfl⟩)
    exact ⟨isLess.le, fun same => (isLess.ne same).elim⟩
  · exact ⟨le_refl _, fun _ => by simp⟩
  · refine ⟨aboveLater _ (List.mem_map.mpr ⟨other, isLater, rfl⟩), fun _ => ?_⟩
    rw [beforeLater other isLater]
    rfl

/-- The greatest of some values depends on nothing but which values they are. -/
theorem greatest_congr {first second : List Rat}
    (same : ∀ value, value ∈ first ↔ value ∈ second) : greatest first = greatest second := by
  have maxEq : first.max? = second.max? := by
    cases found : second.max? with
    | none =>
        rw [List.max?_eq_none_iff] at found ⊢
        rw [List.eq_nil_iff_forall_not_mem]
        intro value member
        rw [same, found] at member
        cases member
    | some largest =>
        rw [List.max?_eq_some_iff] at found ⊢
        exact ⟨(same largest).mpr found.1,
          fun value member => found.2 value ((same value).mp member)⟩
  rw [greatest, greatest, maxEq]

end Greatest

end MarkovDecision
