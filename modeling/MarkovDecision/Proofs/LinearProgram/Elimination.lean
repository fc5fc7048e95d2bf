import Mathlib.Algebra.BigOperators.Fin
import Mathlib.Algebra.Order.Field.Basic
import Mathlib.Algebra.Order.Field.Rat
import Mathlib.Tactic.Linarith
import Mathlib.Tactic.FieldSimp
import Mathlib.Tactic.Ring

/-!
# Eliminating variables from linear inequalities

A variable of a finite system of inequalities can be eliminated: a value for it exists exactly if
every lower bound on it is at most every upper bound, and these comparisons are inequalities in
the other variables.  With one variable left the system is an interval with rational ends, so a
variable that is bounded from below takes a least value.
-/

namespace MarkovDecision

/-- The inequality `bound ≤ coefficients · values`. -/
structure Inequality (count : Nat) where
  coefficients : Fin count → Rat
  bound : Rat

namespace Inequality

variable {count : Nat}

def Holds (inequality : Inequality count) (values : Fin count → Rat) : Prop :=
  inequality.bound ≤ ∑ index, inequality.coefficients index * values index

/-- The coefficient of the variable that is eliminated. -/
def leading (inequality : Inequality (count + 1)) : Rat :=
  inequality.coefficients 0

/-- The part of the inequality that is left without the first variable. -/
def rest (inequality : Inequality (count + 1)) (values : Fin count → Rat) : Rat :=
  ∑ index, inequality.coefficients index.succ * values index

theorem holds_cons_iff (inequality : Inequality (count + 1)) (first : Rat)
    (values : Fin count → Rat) :
    inequality.Holds (Fin.cons first values) ↔
      inequality.bound ≤ inequality.leading * first + inequality.rest values := by
  simp [Holds, leading, rest, Fin.sum_univ_succ]

def tail (inequality : Inequality (count + 1)) : Inequality count :=
  ⟨fun index => inequality.coefficients index.succ, inequality.bound⟩

/-- The comparison of a lower with an upper bound on the first variable. -/
def combine (lower upper : Inequality (count + 1)) : Inequality count :=
  ⟨fun index => lower.leading * upper.coefficients index.succ -
      upper.leading * lower.coefficients index.succ,
    lower.leading * upper.bound - upper.leading * lower.bound⟩

theorem holds_combine_iff (lower upper : Inequality (count + 1)) (values : Fin count → Rat) :
    (combine lower upper).Holds values ↔
      lower.leading * upper.bound - upper.leading * lower.bound ≤
        lower.leading * upper.rest values - upper.leading * lower.rest values := by
  simp only [Holds, combine, rest, Finset.mul_sum, ← Finset.sum_sub_distrib]
  simp only [sub_mul, mul_assoc]

/-- The inequalities in the other variables under which the first one has a value. -/
def eliminate (system : List (Inequality (count + 1))) : List (Inequality count) :=
  system.flatMap fun inequality =>
    if inequality.leading = 0 then [inequality.tail]
    else if 0 < inequality.leading then
      (system.filter fun other => other.leading < 0).map inequality.combine
    else []

end Inequality

open Inequality

/-- Between finitely many lower bounds and the upper bounds above them there is a number. -/
theorem exists_between_bounds (lower upper : List Rat)
    (ordered : ∀ low ∈ lower, ∀ high ∈ upper, low ≤ high) :
    ∃ value, (∀ low ∈ lower, low ≤ value) ∧ ∀ high ∈ upper, value ≤ high := by
  induction lower with
  | nil =>
      clear ordered
      induction upper with
      | nil => exact ⟨0, by simp, by simp⟩
      | cons high upper ih =>
          obtain ⟨value, -, below⟩ := ih
          refine ⟨min high value, by simp, ?_⟩
          intro other member
          rcases List.mem_cons.mp member with isHigh | later
          · exact isHigh ▸ min_le_left high value
          · exact (min_le_right high value).trans (below other later)
  | cons low lower ih =>
      obtain ⟨value, above, below⟩ := ih fun other member =>
        ordered other (List.mem_cons_of_mem low member)
      refine ⟨max low value, ?_, ?_⟩
      · intro other member
        rcases List.mem_cons.mp member with isLow | later
        · exact isLow ▸ le_max_left low value
        · exact (above other later).trans (le_max_right low value)
      · intro high member
        exact max_le (ordered low (by simp) high member) (below high member)

/-- Elimination leaves exactly the values that some value of the first variable completes. -/
theorem exists_holds_cons_iff {count : Nat} (system : List (Inequality (count + 1)))
    (values : Fin count → Rat) :
    (∃ first, ∀ inequality ∈ system, inequality.Holds (Fin.cons first values)) ↔
      ∀ inequality ∈ eliminate system, inequality.Holds values := by
  constructor
  · rintro ⟨first, holds⟩ inequality member
    obtain ⟨lower, lowerMem, produced⟩ := List.mem_flatMap.mp member
    have lowerHolds := (holds_cons_iff lower first values).mp (holds lower lowerMem)
    split at produced
    · rename_i leadingZero
      rw [List.mem_singleton.mp produced]
      rw [leadingZero, zero_mul, zero_add] at lowerHolds
      exact lowerHolds
    · split at produced
      · rename_i leadingPos
        obtain ⟨upper, upperMem, rfl⟩ := List.mem_map.mp produced
        obtain ⟨upperMem, leadingNeg⟩ := List.mem_filter.mp upperMem
        have upperHolds := (holds_cons_iff upper first values).mp (holds upper upperMem)
        rw [holds_combine_iff]
        have scaledUpper := mul_le_mul_of_nonneg_left upperHolds leadingPos.le
        have scaledLower := mul_le_mul_of_nonneg_left lowerHolds
          (neg_nonneg.mpr (of_decide_eq_true leadingNeg).le)
        linarith
      · cases produced
  · intro holds
    obtain ⟨first, above, below⟩ := exists_between_bounds
      ((system.filter fun inequality => 0 < inequality.leading).map fun inequality =>
        (inequality.bound - inequality.rest values) / inequality.leading)
      ((system.filter fun inequality => inequality.leading < 0).map fun inequality =>
        (inequality.bound - inequality.rest values) / inequality.leading)
      (by
        intro low lowMem high highMem
        obtain ⟨lower, lowerMem, rfl⟩ := List.mem_map.mp lowMem
        obtain ⟨upper, upperMem, rfl⟩ := List.mem_map.mp highMem
        obtain ⟨lowerMem, leadingPos⟩ := List.mem_filter.mp lowerMem
        have leadingPos : 0 < lower.leading := of_decide_eq_true leadingPos
        have leadingNeg : upper.leading < 0 :=
          of_decide_eq_true (List.mem_filter.mp upperMem).2
        have combined := holds (lower.combine upper) (List.mem_flatMap.mpr ⟨lower, lowerMem, by
          rw [if_neg leadingPos.ne', if_pos leadingPos]
          exact List.mem_map.mpr ⟨upper, upperMem, rfl⟩⟩)
        rw [holds_combine_iff] at combined
        rw [div_le_iff₀ leadingPos, div_mul_eq_mul_div, le_div_iff_of_neg leadingNeg]
        linarith)
    refine ⟨first, fun inequality member => ?_⟩
    rw [holds_cons_iff]
    rcases lt_trichotomy inequality.leading 0 with leadingNeg | leadingZero | leadingPos
    · have bound := below _ (List.mem_map.mpr ⟨inequality,
        List.mem_filter.mpr ⟨member, decide_eq_true leadingNeg⟩, rfl⟩)
      rw [le_div_iff_of_neg leadingNeg] at bound
      linarith
    · have tailHolds := holds inequality.tail (List.mem_flatMap.mpr ⟨inequality, member, by
        simp [leadingZero]⟩)
      rw [leadingZero, zero_mul, zero_add]
      exact tailHolds
    · have bound := above _ (List.mem_map.mpr ⟨inequality,
        List.mem_filter.mpr ⟨member, decide_eq_true leadingPos⟩, rfl⟩)
      rw [div_le_iff₀ leadingPos] at bound
      linarith

theorem exists_largest (values : List Rat) (nonempty : values ≠ []) :
    ∃ largest ∈ values, ∀ value ∈ values, value ≤ largest := by
  cases found : values.max? with
  | none => exact (nonempty (List.max?_eq_none_iff.mp found)).elim
  | some largest => exact ⟨largest, List.max?_eq_some_iff.mp found⟩

/-- The only variable of a solvable system takes a least value, if the system bounds it from
below: the largest of the lower bounds on it. -/
theorem exists_least_only (system : List (Inequality 1))
    (solvable : ∃ values, ∀ inequality ∈ system, inequality.Holds values)
    (lowest : Rat) (bounded : ∀ values, (∀ inequality ∈ system, inequality.Holds values) →
      lowest ≤ values 0) :
    ∃ values, (∀ inequality ∈ system, inequality.Holds values) ∧
      ∀ others, (∀ inequality ∈ system, inequality.Holds others) → values 0 ≤ others 0 := by
  obtain ⟨start, startHolds⟩ := solvable
  have holdsIff : ∀ (inequality : Inequality 1) (values : Fin 1 → Rat),
      inequality.Holds values ↔ inequality.bound ≤ inequality.leading * values 0 := by
    intro inequality values
    simp [Holds, leading]
  have someLower : (system.filter fun inequality => 0 < inequality.leading) ≠ [] := by
    intro noLower
    have smaller : ∀ inequality ∈ system,
        inequality.Holds fun _ => min (start 0) (lowest - 1) := by
      intro inequality member
      have notLower := List.filter_eq_nil_iff.mp noLower inequality member
      have leadingLe : inequality.leading ≤ 0 := by simpa using notLower
      have startBound := (holdsIff inequality start).mp (startHolds inequality member)
      rw [holdsIff]
      exact startBound.trans (mul_le_mul_of_nonpos_left (min_le_left _ _) leadingLe)
    have impossible := bounded _ smaller
    have above : min (start 0) (lowest - 1) ≤ lowest - 1 := min_le_right _ _
    linarith
  obtain ⟨least, leastMem, isLargest⟩ := exists_largest
    ((system.filter fun inequality => 0 < inequality.leading).map fun inequality =>
      inequality.bound / inequality.leading) (by simpa using someLower)
  have lowerBound : ∀ values, (∀ inequality ∈ system, inequality.Holds values) →
      least ≤ values 0 := by
    intro values holds
    obtain ⟨inequality, member, rfl⟩ := List.mem_map.mp leastMem
    obtain ⟨member, leadingPos⟩ := List.mem_filter.mp member
    rw [div_le_iff₀ (of_decide_eq_true leadingPos), mul_comm]
    exact (holdsIff inequality values).mp (holds inequality member)
  refine ⟨fun _ => least, ?_, fun others holds => lowerBound others holds⟩
  intro inequality member
  rw [holdsIff]
  rcases le_or_gt inequality.leading 0 with leadingLe | leadingPos
  · have startBound := (holdsIff inequality start).mp (startHolds inequality member)
    exact startBound.trans
      (mul_le_mul_of_nonpos_left (lowerBound start startHolds) leadingLe)
  · have bound := isLargest _ (List.mem_map.mpr ⟨inequality,
      List.mem_filter.mpr ⟨member, decide_eq_true leadingPos⟩, rfl⟩)
    rw [div_le_iff₀ leadingPos] at bound
    linarith

theorem exists_least_last {count : Nat} (system : List (Inequality (count + 1)))
    (solvable : ∃ values, ∀ inequality ∈ system, inequality.Holds values)
    (lowest : Rat) (bounded : ∀ values, (∀ inequality ∈ system, inequality.Holds values) →
      lowest ≤ values (Fin.last count)) :
    ∃ values, (∀ inequality ∈ system, inequality.Holds values) ∧
      ∀ others, (∀ inequality ∈ system, inequality.Holds others) →
        values (Fin.last count) ≤ others (Fin.last count) := by
  induction count with
  | zero => exact exists_least_only system solvable lowest bounded
  | succ count ih =>
      have tailHolds : ∀ values : Fin (count + 2) → Rat,
          (∀ inequality ∈ system, inequality.Holds values) →
            ∀ inequality ∈ eliminate system, inequality.Holds (Fin.tail values) := by
        intro values holds
        rw [← exists_holds_cons_iff]
        exact ⟨values 0, by rw [Fin.cons_self_tail]; exact holds⟩
      obtain ⟨start, startHolds⟩ := solvable
      -- The first variable is eliminated, so that the last one stays to the end.
      obtain ⟨values, valuesHold, isLeast⟩ := ih (eliminate system)
        ⟨Fin.tail start, tailHolds start startHolds⟩ (by
          intro values holds
          obtain ⟨first, completed⟩ := (exists_holds_cons_iff system values).mpr holds
          simpa [← Fin.succ_last] using bounded _ completed)
      obtain ⟨first, completed⟩ := (exists_holds_cons_iff system values).mpr valuesHold
      refine ⟨Fin.cons first values, completed, ?_⟩
      intro others holds
      simpa [← Fin.succ_last, Fin.tail] using isLeast _ (tailHolds others holds)

end MarkovDecision
