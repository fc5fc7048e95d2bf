import Mathlib.Algebra.BigOperators.Group.List.Basic
import Mathlib.Algebra.Order.Field.Rat
import Mathlib.Data.List.Induction
import Mathlib.Tactic.Linarith
import Mathlib.Tactic.Ring
import MarkovDecision.Number

/-!
# Laws of numbers

Most statements of this library hold of exact numbers only.  A few facts about budgets hold of
double-precision numbers as well, because they rest on nothing but the order of keys and on
operations that cannot tell numbers with the same key apart.  `LawfulNumber` lists those laws;
rational numbers obey them.

The second half reads the operations of `Number` as those of the ordered field of rationals.
-/

namespace MarkovDecision

open Std

/-- The laws that exact and double-precision numbers share: keys are ordered, numbers with the
same key (the two zeros, or invalid numbers) are interchangeable, and infinity is above zero. -/
class LawfulNumber (R : Type) [Number R] : Prop where
  transCmp_keyOrder : TransCmp (Number.keyOrder : R → R → Ordering)
  add_sameKey : ∀ {first second : R} (weight : R), Number.keyOrder first second = .eq →
    Number.keyOrder (first + weight) (second + weight) = .eq
  sub_sameKey : ∀ {first second : R} (loss : R), Number.keyOrder first second = .eq →
    Number.keyOrder (first - loss) (second - loss) = .eq
  le_iff_of_sameKey : ∀ {first second : R} (bound : R), Number.keyOrder first second = .eq →
    (bound ≤ first ↔ bound ≤ second)
  sub_zero_sameKey : ∀ value : R, Number.keyOrder (value - 0) value = .eq
  zero_add_one : (0 + 1 : R) = 1
  zero_lt_infinity : ∀ infinity : R, Number.infinity? = some infinity → 0 < infinity
  not_infinity_lt_zero : ∀ infinity : R, Number.infinity? = some infinity → ¬infinity < 0

attribute [instance] LawfulNumber.transCmp_keyOrder

/-- The order of numbers, of which only the finite ones need to be comparable. -/
class FiniteOrder (R : Type) [Number R] : Prop where
  le_trans : ∀ {first middle last : R}, first ≤ middle → middle ≤ last → first ≤ last
  le_total : ∀ {first second : R}, Number.isFinite first = true → Number.isFinite second = true →
    first ≤ second ∨ second ≤ first

namespace Number

variable {R : Type} [Number R] [LawfulNumber R]

theorem le_sub_zero_iff (bound value : R) : bound ≤ value - 0 ↔ bound ≤ value :=
  LawfulNumber.le_iff_of_sameKey bound (LawfulNumber.sub_zero_sameKey value)

end Number

theorem mem_of_firstBest? {R E : Type} [Number R] {entries : List (E × R)} {best : E × R}
    (found : Number.firstBest? entries = some best) : best ∈ entries := by
  have isEntry : ∀ entry, Number.firstBest? entries = some entry → entry ∈ entries := by
    refine List.foldlRecOn (motive := fun best? => ∀ entry, best? = some entry → entry ∈ entries)
      entries _ (by simp) ?_
    intro best? earlier entry member chosen isChosen
    split at isChosen
    · cases isChosen
      exact member
    · exact earlier chosen isChosen
  exact isEntry best found

section Exact

@[simp]
theorem keyOrder_eq_compare (first second : Rat) :
    Number.keyOrder first second = compare first second := by
  rw [LinearOrder.compare_eq_compareOfLessAndEq]
  rfl

theorem isLE_keyOrder_iff (first second : Rat) :
    (Number.keyOrder first second).isLE = true ↔ first ≤ second := by
  rw [keyOrder_eq_compare]
  exact Ordering.ne_gt_iff_isLE.symm.trans compare_le_iff_le

instance : TransCmp (Number.keyOrder : Rat → Rat → Ordering) := by
  have sameOrder : (Number.keyOrder : Rat → Rat → Ordering) = compare := by
    funext first second
    exact keyOrder_eq_compare first second
  rw [sameOrder]
  infer_instance

instance : LawfulEqCmp (Number.keyOrder : Rat → Rat → Ordering) := by
  have sameOrder : (Number.keyOrder : Rat → Rat → Ordering) = compare := by
    funext first second
    exact keyOrder_eq_compare first second
  rw [sameOrder]
  infer_instance

instance : LawfulNumber Rat where
  transCmp_keyOrder := inferInstance
  add_sameKey weight sameKey := by
    rw [LawfulEqCmp.eq_of_compare sameKey]
    exact ReflCmp.compare_self
  sub_sameKey loss sameKey := by
    rw [LawfulEqCmp.eq_of_compare sameKey]
    exact ReflCmp.compare_self
  le_iff_of_sameKey bound sameKey := by
    rw [LawfulEqCmp.eq_of_compare sameKey]
  sub_zero_sameKey value := by
    have unchanged : value - 0 = value := sub_zero value
    rw [unchanged]
    exact ReflCmp.compare_self
  zero_add_one := zero_add (1 : Rat)
  zero_lt_infinity infinity isInfinity := by cases isInfinity
  not_infinity_lt_zero infinity isInfinity := by cases isInfinity

instance : FiniteOrder Rat where
  le_trans atMost above := Rat.le_trans atMost above
  le_total _ _ := Rat.le_total

theorem foldl_add_eq_add_sum (values : List Rat) (start : Rat) :
    values.foldl (· + ·) start = start + values.sum := by
  induction values generalizing start with
  | nil => simp
  | cons value values ih =>
      rw [List.foldl_cons, ih, List.sum_cons, add_assoc]

@[simp]
theorem number_sum_eq_sum (values : List Rat) : Number.sum values = values.sum := by
  have fromZero := foldl_add_eq_add_sum values (-0)
  rw [neg_zero, zero_add] at fromZero
  exact fromZero

@[simp]
theorem magnitude_eq_abs (value : Rat) : Number.magnitude value = |value| := by
  unfold Number.magnitude
  split
  · rename_i negative
    exact (abs_of_neg negative).symm
  · rename_i notNegative
    exact (abs_of_nonneg (le_of_not_gt notNegative)).symm

theorem larger_eq_max (first second : Rat) : Number.larger first second = max first second := by
  unfold Number.larger
  split
  · rename_i isLess
    exact (max_eq_left isLess.le).symm
  · rename_i notLess
    rw [if_pos le_rfl]
    exact (max_eq_right (le_of_not_gt notLess)).symm

theorem largest?_eq_max? (values : List Rat) : Number.largest? values = values.max? := by
  have fromFirst (best : Rat) (rest : List Rat) :
      rest.foldl (fun best value => some (best.elim value (Number.larger · value))) (some best) =
        some (rest.foldl max best) := by
    induction rest generalizing best with
    | nil => rfl
    | cons value rest ih =>
        rw [List.foldl_cons, Option.elim_some, larger_eq_max, ih, List.foldl_cons]
  cases values with
  | nil => rfl
  | cons first rest => exact fromFirst first rest

/-- The first best entry is above those before it and not below those after it. -/
theorem exists_firstBest? {E : Type} {entries : List (E × Rat)} (nonempty : entries ≠ []) :
    ∃ before best after, entries = before ++ best :: after ∧
      Number.firstBest? entries = some best ∧ (∀ entry ∈ before, entry.2 < best.2) ∧
      ∀ entry ∈ after, entry.2 ≤ best.2 := by
  induction entries using List.reverseRecOn with
  | nil => exact (nonempty rfl).elim
  | append_singleton entries last ih =>
      by_cases isEmpty : entries = []
      · subst isEmpty
        exact ⟨[], last, [], rfl, rfl, by simp, by simp⟩
      · obtain ⟨before, best, after, split, found, aboveEarlier, aboveLater⟩ := ih isEmpty
        have lastTurn : Number.firstBest? (entries ++ [last]) =
            if best.2 < last.2 then some last else some best := by
          have unfolded : Number.firstBest? (entries ++ [last]) =
              if Number.beats last.2 (((Number.firstBest? entries).map (·.2)).or Number.lowest?)
              then some last else Number.firstBest? entries := by
            rw [Number.firstBest?, List.foldl_append]
            rfl
          rw [unfolded, found]
          simp [Number.beats]
        by_cases isBetter : best.2 < last.2
        · refine ⟨entries, last, [], rfl, by rw [lastTurn, if_pos isBetter], ?_, by simp⟩
          intro entry member
          rw [split, List.mem_append, List.mem_cons] at member
          rcases member with earlier | rfl | later
          · exact (aboveEarlier entry earlier).trans isBetter
          · exact isBetter
          · exact (aboveLater entry later).trans_lt isBetter
        · refine ⟨before, best, after ++ [last], by simp [split],
            by rw [lastTurn, if_neg isBetter], aboveEarlier, ?_⟩
          intro entry member
          rcases List.mem_append.mp member with later | isLast
          · exact aboveLater entry later
          · rw [List.mem_singleton.mp isLast]
            exact le_of_not_gt isBetter

theorem decimal_pos (places : Nat) : (0 : Rat) < Number.decimal places := by
  have positive : (0 : Rat) < ((Nat.pow 10 places : Nat) : Rat) :=
    Nat.cast_pos.mpr (Nat.pow_pos (by decide))
  exact one_div_pos.mpr positive

end Exact

end MarkovDecision
