import MarkovDecision.Proofs.Reachability.Supersolution
import Mathlib.Topology.Algebra.Monoid
import Mathlib.Topology.Instances.Real.Lemmas
import Mathlib.Topology.Order.MonotoneConvergence

/-!
# The limit of the horizon values

The greatest probability of reaching the targets at all, as the real limit of the probabilities
within finitely many steps.  An action cannot promise more of it than the state is worth.  States
that are settled have the value at which they are settled.
-/

namespace MarkovDecision

open Filter
open Std (TreeMap TransOrd LawfulEqOrd)

section Mean

variable {S : Type} [Ord S]

/-- The expected value of a real function over a distribution. -/
def mean (distribution : Distribution S Rat) (values : S → ℝ) : ℝ :=
  (distribution.toList.map fun entry => (entry.2 : ℝ) * values entry.1).sum

theorem cast_expected (distribution : Distribution S Rat) (values : S → Rat) :
    ((expected distribution values : Rat) : ℝ) = mean distribution fun state => values state := by
  unfold expected mean
  induction distribution.toList with
  | nil => simp
  | cons entry entries ih => simp only [List.map_cons, List.sum_cons, Rat.cast_add, Rat.cast_mul, ih]

theorem mean_sub (distribution : Distribution S Rat) (first second : S → ℝ) :
    mean distribution (fun state => first state - second state) =
      mean distribution first - mean distribution second := by
  unfold mean
  induction distribution.toList with
  | nil => simp
  | cons entry entries ih =>
      simp only [List.map_cons, List.sum_cons, ih]
      ring

theorem mean_const (distribution : Distribution S Rat) (value : ℝ) :
    mean distribution (fun _ => value) = (totalProbability distribution : ℝ) * value := by
  unfold mean totalProbability
  induction distribution.toList with
  | nil => simp
  | cons entry entries ih =>
      simp only [List.map_cons, List.sum_cons, ih, Rat.cast_add, add_mul]

theorem tendsto_mean (distribution : Distribution S Rat) {sequence : Nat → S → ℝ} {limit : S → ℝ}
    (converges : ∀ state, Tendsto (fun steps => sequence steps state) atTop (nhds (limit state))) :
    Tendsto (fun steps => mean distribution (sequence steps)) atTop
      (nhds (mean distribution limit)) :=
  tendsto_list_sum distribution.toList fun entry _ =>
    (converges entry.1).const_mul (entry.2 : ℝ)

end Mean

namespace Model

variable {S A : Type} [Ord S] [Ord A]

/-- The greatest probability of reaching the targets. -/
noncomputable def limitValue (model : Model S A Rat) (targets : LabelSet S) (state : S) : ℝ :=
  ⨆ steps, (model.horizonValue targets steps state : ℝ)

namespace Substochastic

variable {model : Model S A Rat} (proper : model.Substochastic) (targets : LabelSet S)
include proper

theorem bddAbove_horizonValue (state : S) :
    BddAbove (Set.range fun steps => (model.horizonValue targets steps state : ℝ)) := by
  refine ⟨1, ?_⟩
  rintro _ ⟨steps, rfl⟩
  have atMostOne : (model.horizonValue targets steps state : ℝ) ≤ 1 := by
    exact_mod_cast proper.horizonValue_le_one targets steps state
  exact atMostOne

theorem horizonValue_le_limitValue (steps : Nat) (state : S) :
    (model.horizonValue targets steps state : ℝ) ≤ model.limitValue targets state :=
  le_ciSup (proper.bddAbove_horizonValue targets state) steps

theorem tendsto_horizonValue (state : S) :
    Tendsto (fun steps => (model.horizonValue targets steps state : ℝ)) atTop
      (nhds (model.limitValue targets state)) := by
  apply tendsto_atTop_ciSup
  · intro fewer more fewerLe
    exact Rat.cast_le.mpr (proper.horizonValue_monotone targets state fewerLe)
  · exact proper.bddAbove_horizonValue targets state

theorem mean_limitValue_le {state : S} (noTarget : ¬targets.contains state = true)
    {offer : A × Distribution S Rat} (offered : offer ∈ (model.actions state).toList) :
    mean offer.2 (model.limitValue targets) ≤ model.limitValue targets state := by
  apply le_of_tendsto' (tendsto_mean offer.2 (proper.tendsto_horizonValue targets))
  intro steps
  rw [← cast_expected]
  have promised := expected_le_horizonValue model noTarget offered steps
  have promisedReal : ((expected offer.2 (model.horizonValue targets steps) : Rat) : ℝ) ≤
      model.horizonValue targets (steps + 1) state := by exact_mod_cast promised
  exact promisedReal.trans (proper.horizonValue_le_limitValue targets (steps + 1) state)

theorem limitValue_nonneg (state : S) : 0 ≤ model.limitValue targets state := by
  have atStart : (0 : ℝ) ≤ model.horizonValue targets 0 state := by
    exact_mod_cast proper.horizonValue_nonneg targets 0 state
  exact atStart.trans (proper.horizonValue_le_limitValue targets 0 state)

end Substochastic

theorem limitValue_of_target (model : Model S A Rat) {targets : LabelSet S} {state : S}
    (isTarget : targets.contains state = true) : model.limitValue targets state = 1 := by
  simp [limitValue, horizonValue_of_target model isTarget]

/-- A rational least upper bound of the horizon values is their limit. -/
theorem limitValue_eq_of_isLUB {model : Model S A Rat} {targets : LabelSet S} {state : S}
    {value : Rat}
    (isLUB : IsLUB (Set.range fun steps => model.horizonValue targets steps state) value) :
    model.limitValue targets state = value := by
  have below (steps : Nat) : (model.horizonValue targets steps state : ℝ) ≤ value := by
    exact_mod_cast isLUB.1 ⟨steps, rfl⟩
  refine le_antisymm (ciSup_le below) ?_
  by_contra isLess
  obtain ⟨between, limitLt, betweenLt⟩ := exists_rat_btwn (not_le.mp isLess)
  have isBound : between ∈ upperBounds
      (Set.range fun steps => model.horizonValue targets steps state) := by
    rintro _ ⟨steps, rfl⟩
    have atMostLimit := le_ciSup (f := fun steps => (model.horizonValue targets steps state : ℝ))
      ⟨value, by rintro _ ⟨steps, rfl⟩; exact below steps⟩ steps
    exact_mod_cast atMostLimit.trans limitLt.le
  have valueLe := isLUB.2 isBound
  exact absurd betweenLt (not_lt.mpr (by exact_mod_cast valueLe))

section Settled

variable [TransOrd S] [LawfulEqOrd S] {model : Model S A Rat} {targets : LabelSet S}

variable [TransOrd A]

theorem WellFormed.horizonValue_of_unreachable (wellFormed : model.WellFormed)
    (proper : model.Substochastic) {state : S}
    (standing : model.classification targets state = .unreachable) (steps : Nat) :
    model.horizonValue targets steps state = 0 := by
  apply le_antisymm _ (proper.horizonValue_nonneg targets steps state)
  induction steps generalizing state with
  | zero =>
      obtain ⟨noTarget, -⟩ := (classification_eq_unreachable_iff state).mp standing
      rw [horizonValue_zero_of_not_target model noTarget]
  | succ steps ih =>
      obtain ⟨noTarget, -⟩ := (classification_eq_unreachable_iff state).mp standing
      rw [horizonValue_succ_of_not_target model noTarget]
      refine greatest_le (le_refl 0) ?_
      intro value member
      obtain ⟨offer, offered, rfl⟩ := List.mem_map.mp member
      refine proper.expected_le offered (le_refl 0) fun entry entryMem => ?_
      exact ih (wellFormed.unreachable_successor standing
        (wellFormed.entry_mem_successors offered entryMem))

theorem Supersolution.horizonValue_le (wellFormed : model.WellFormed)
    (proper : model.Substochastic) {values : S → Rat} (super : model.Supersolution targets values)
    {state : S} (known : model.contains state = true) (steps : Nat) :
    model.horizonValue targets steps state ≤ values state := by
  have settled (steps : Nat) {state : S} (known : model.contains state = true)
      (isSettled : model.classification targets state ≠ .unknown) :
      model.horizonValue targets steps state ≤ values state := by
    cases standing : model.classification targets state with
    | target =>
        rw [super.target state known standing]
        exact proper.horizonValue_le_one targets steps state
    | unreachable =>
        rw [wellFormed.horizonValue_of_unreachable proper standing]
        exact (super.probability state known).1
    | unknown => exact (isSettled standing).elim
  have noTarget {state : S} (standing : model.classification targets state = .unknown) :
      ¬targets.contains state = true := by
    rw [← classification_eq_target_iff model, standing]
    simp
  induction steps generalizing state with
  | zero =>
      by_cases standing : model.classification targets state = .unknown
      · rw [horizonValue_zero_of_not_target model (noTarget standing)]
        exact (super.probability state known).1
      · exact settled 0 known standing
  | succ steps ih =>
      by_cases standing : model.classification targets state = .unknown
      · rw [horizonValue_succ_of_not_target model (noTarget standing)]
        refine greatest_le (super.probability state known).1 ?_
        intro value member
        obtain ⟨offer, offered, rfl⟩ := List.mem_map.mp member
        have stepwise := expected_le_expected (proper.nonneg state offer offered)
          fun entry entryMem => ih (wellFormed.contains_entry offered entryMem)
        exact stepwise.trans (super.promised state known standing offer offered)
      · exact settled (steps + 1) known standing

omit [TransOrd A] in
/-- Only at an unsettled state can a supersolution be above the limit. -/
theorem Supersolution.unsettled_of_limitValue_lt (wellFormed : model.WellFormed)
    (proper : model.Substochastic) {values : S → Rat} (super : model.Supersolution targets values)
    {state : S} (known : model.contains state = true)
    (above : model.limitValue targets state < values state) :
    state ∈ model.unsettled targets := by
  refine (wellFormed.mem_unsettled_iff state).mpr ⟨known, ?_⟩
  cases standing : model.classification targets state with
  | target =>
      rw [super.target state known standing,
        limitValue_of_target model ((classification_eq_target_iff model state).mp standing)] at above
      simp at above
  | unreachable =>
      rw [super.unreachable state known standing, Rat.cast_zero] at above
      exact (not_lt_of_ge (proper.limitValue_nonneg targets state) above).elim
  | unknown => rfl

end Settled

end Model

end MarkovDecision
