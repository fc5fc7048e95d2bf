import MarkovDecision.Proofs.Reachability.Limit
import Mathlib.Data.Finset.Max

/-!
# The smallest supersolution

The supersolution with the smallest sum is the limit of the horizon values.  Otherwise take the
states where it exceeds the limit by most.  An action there that promises as much as its state
is worth must lead back to these states for certain, so all of them can be lowered together by a
small amount, and a smaller supersolution results.  This is why states that can stay among
themselves for ever are not worth more than what they reach.
-/

namespace MarkovDecision

open Std (TreeMap TransOrd LawfulEqOrd)

/-- A function that is nowhere above a positive bound but reaches it on average equals the bound
wherever it matters. -/
theorem eq_bound_of_le_mean {S : Type} [Ord S] {distribution : Distribution S Rat} {gap : S → ℝ}
    {bound : ℝ} (nonneg : ∀ entry ∈ distribution.toList, 0 ≤ entry.2)
    (total : totalProbability distribution ≤ 1) (boundPos : 0 < bound)
    (below : ∀ entry ∈ distribution.toList, gap entry.1 ≤ bound)
    (reaches : bound ≤ mean distribution gap) :
    totalProbability distribution = 1 ∧
      ∀ entry ∈ distribution.toList, entry.2 = 0 ∨ gap entry.1 = bound := by
  have totalReal : (totalProbability distribution : ℝ) ≤ 1 := by exact_mod_cast total
  have termNonneg : ∀ term ∈ distribution.toList.map fun entry =>
      (entry.2 : ℝ) * (bound - gap entry.1), 0 ≤ term := by
    intro term member
    obtain ⟨entry, entryMem, rfl⟩ := List.mem_map.mp member
    have probabilityNonneg : (0 : ℝ) ≤ entry.2 := by exact_mod_cast nonneg entry entryMem
    exact mul_nonneg probabilityNonneg (sub_nonneg.mpr (below entry entryMem))
  have shortfall : mean distribution (fun state => bound - gap state) =
      totalProbability distribution * bound - mean distribution gap := by
    rw [mean_sub, mean_const]
  have shortfallNonneg : 0 ≤ mean distribution fun state => bound - gap state :=
    List.sum_nonneg termNonneg
  have totalBound : (totalProbability distribution : ℝ) * bound ≤ 1 * bound :=
    mul_le_mul_of_nonneg_right totalReal boundPos.le
  constructor
  · have atLeastOne : 1 * bound ≤ totalProbability distribution * bound := by linarith
    have totalGe : (1 : ℝ) ≤ totalProbability distribution :=
      le_of_mul_le_mul_right atLeastOne boundPos
    exact le_antisymm total (by exact_mod_cast totalGe)
  · have noShortfall : mean distribution (fun state => bound - gap state) = 0 := by linarith
    intro entry member
    have termZero := List.all_zero_of_le_zero_le_of_sum_eq_zero termNonneg noShortfall
      (List.mem_map.mpr ⟨entry, member, rfl⟩)
    rcases mul_eq_zero.mp termZero with isZero | isBound
    · exact Or.inl (by exact_mod_cast isZero)
    · exact Or.inr (sub_eq_zero.mp isBound).symm

namespace Model

variable {S A : Type} [Ord S] [TransOrd S] [LawfulEqOrd S] [Ord A] [TransOrd A]
  {model : Model S A Rat} {targets : LabelSet S}

/-- A supersolution can be lowered on states that every action either values below them or keeps
among themselves for certain. -/
theorem Supersolution.lower_of_trap (wellFormed : model.WellFormed)
    (proper : model.Substochastic) {values : S → Rat} (super : model.Supersolution targets values)
    (inside : S → Prop) [DecidablePred inside]
    (isUnsettled : ∀ state, inside state → state ∈ model.unsettled targets)
    (positive : ∀ state, inside state → 0 < values state)
    (trapped : ∀ state, inside state → ∀ offer ∈ (model.actions state).toList,
      expected offer.2 values < values state ∨
        expected offer.2 (fun next => if inside next then 1 else 0) = 1) :
    ∃ amount, 0 < amount ∧ model.Supersolution targets fun state =>
      values state - amount * if inside state then 1 else 0 := by
  obtain ⟨amount, amountPos, isSmall⟩ := exists_pos_below
    ((model.unsettled targets).flatMap fun state => values state ::
      (model.actions state).toList.map fun offer => values state - expected offer.2 values)
  have notInside {state : S} (known : model.contains state = true)
      (settled : model.classification targets state ≠ .unknown) : ¬inside state := fun isInside =>
    settled ((wellFormed.mem_unsettled_iff state).mp (isUnsettled state isInside)).2
  have indicatorNonneg (state : S) : (0 : Rat) ≤ if inside state then 1 else 0 := by
    split
    · exact zero_le_one
    · exact le_refl 0
  refine ⟨amount, amountPos, ?_, ?_, ?_, ?_⟩
  · intro state known
    obtain ⟨nonneg, atMostOne⟩ := super.probability state known
    by_cases isInside : inside state
    · have amountLe : amount ≤ values state := isSmall _ (List.mem_flatMap.mpr
        ⟨state, isUnsettled state isInside, by simp⟩) (positive state isInside)
      rw [if_pos isInside]
      constructor <;> linarith
    · rw [if_neg isInside]
      constructor <;> linarith
  · intro state known standing
    rw [if_neg (notInside known (by simp [standing])), super.target state known standing]
    ring
  · intro state known standing
    rw [if_neg (notInside known (by simp [standing])), super.unreachable state known standing]
    ring
  · intro state known standing offer offered
    have promised := super.promised state known standing offer offered
    have shareNonneg : 0 ≤ amount * expected offer.2 (fun next => if inside next then 1 else 0) :=
      mul_nonneg amountPos.le (proper.expected_nonneg offered fun entry _ =>
        indicatorNonneg entry.1)
    rw [expected_sub, expected_const_mul]
    by_cases isInside : inside state
    · rw [if_pos isInside]
      rcases trapped state isInside offer offered with slack | stays
      · have amountLe : amount ≤ values state - expected offer.2 values := isSmall _
          (List.mem_flatMap.mpr ⟨state, isUnsettled state isInside, List.mem_cons_of_mem _
            (List.mem_map.mpr ⟨offer, offered, rfl⟩)⟩) (sub_pos.mpr slack)
        linarith
      · rw [stays]
        linarith
    · rw [if_neg isInside]
      linarith

/-- By how much values are above the limit. -/
noncomputable def excess (model : Model S A Rat) (targets : LabelSet S) (values : S → Rat)
    (state : S) : ℝ :=
  values state - model.limitValue targets state

/-- At a state with the largest excess, an action that promises as much as the state is worth
leads to such states for certain. -/
theorem WellFormed.stays_at_largest_excess (wellFormed : model.WellFormed)
    (proper : model.Substochastic) {values : S → Rat} {bound : ℝ} (boundPos : 0 < bound)
    (below : ∀ state, model.contains state = true → model.excess targets values state ≤ bound)
    {state : S} (noTarget : ¬targets.contains state = true)
    (isLargest : model.excess targets values state = bound)
    {offer : A × Distribution S Rat} (offered : offer ∈ (model.actions state).toList)
    (promises : values state ≤ expected offer.2 values)
    (inside : S → Prop) [DecidablePred inside]
    (isInside : ∀ next, model.contains next = true → model.excess targets values next = bound →
      inside next) :
    expected offer.2 (fun next => if inside next then 1 else 0) = 1 := by
  have promisesReal : (values state : ℝ) ≤ mean offer.2 fun next => values next := by
    rw [← cast_expected]
    exact_mod_cast promises
  have limitPromised := proper.mean_limitValue_le targets noTarget offered
  have meanEq : mean offer.2 (model.excess targets values) =
      mean offer.2 (fun next => values next) - mean offer.2 (model.limitValue targets) :=
    mean_sub _ _ _
  have reaches : bound ≤ mean offer.2 (model.excess targets values) := by
    unfold excess at isLargest
    linarith
  obtain ⟨totalOne, onLargest⟩ := eq_bound_of_le_mean (proper.nonneg state offer offered)
    (proper.total_le_one state offer offered) boundPos
    (fun entry member => below entry.1 (wellFormed.contains_entry offered member)) reaches
  refine Eq.trans ?_ totalOne
  unfold expected totalProbability
  congr 1
  apply List.map_congr_left
  intro entry member
  rcases onLargest entry member with isZero | entryLargest
  · rw [isZero, zero_mul]
  · have entryInside := isInside entry.1 (wellFormed.contains_entry offered member) entryLargest
    simp only [if_pos entryInside, mul_one]

/-- The supersolution with the smallest sum is nowhere above the limit. -/
theorem Supersolution.le_limitValue (wellFormed : model.WellFormed)
    (proper : model.Substochastic) {values : S → Rat} (super : model.Supersolution targets values)
    (smallest : ∀ others, model.Supersolution targets others →
      ((model.unsettled targets).map values).sum ≤ ((model.unsettled targets).map others).sum)
    {state : S} (known : model.contains state = true) :
    (values state : ℝ) ≤ model.limitValue targets state := by
  classical
  by_contra above
  have mem_unsettled {other : S} (otherKnown : model.contains other = true)
      (excessPos : 0 < model.excess targets values other) : other ∈ model.unsettled targets :=
    super.unsettled_of_limitValue_lt wellFormed proper otherKnown (sub_pos.mp excessPos)
  have excessPos : 0 < model.excess targets values state := sub_pos.mpr (lt_of_not_ge above)
  have stateMem := List.mem_toFinset.mpr (mem_unsettled known excessPos)
  obtain ⟨top, topMem, isLargest⟩ := Finset.exists_max_image (model.unsettled targets).toFinset
    (model.excess targets values) ⟨state, stateMem⟩
  have boundPos : 0 < model.excess targets values top :=
    excessPos.trans_le (isLargest state stateMem)
  have below (other : S) (otherKnown : model.contains other = true) :
      model.excess targets values other ≤ model.excess targets values top := by
    by_cases otherPos : 0 < model.excess targets values other
    · exact isLargest other (List.mem_toFinset.mpr (mem_unsettled otherKnown otherPos))
    · exact (le_of_not_gt otherPos).trans boundPos.le
  -- The states with the largest excess form the trap.
  let inside (other : S) : Prop := other ∈ model.unsettled targets ∧
    model.excess targets values other = model.excess targets values top
  obtain ⟨amount, amountPos, lowered⟩ := super.lower_of_trap wellFormed proper inside
    (fun other isInside => isInside.1) (by
      intro other isInside
      have limitNonneg := proper.limitValue_nonneg targets other
      have excessEq := isInside.2
      unfold excess at excessEq boundPos
      have valuePos : (0 : ℝ) < values other := by linarith
      exact_mod_cast valuePos) (by
      intro other isInside offer offered
      have standing := ((wellFormed.mem_unsettled_iff other).mp isInside.1).2
      have noTarget : ¬targets.contains other = true := by
        rw [← classification_eq_target_iff model, standing]
        simp
      by_cases slack : expected offer.2 values < values other
      · exact Or.inl slack
      · refine Or.inr (wellFormed.stays_at_largest_excess proper boundPos below noTarget isInside.2
          offered (le_of_not_gt slack) inside fun next nextKnown nextLargest => ?_)
        exact ⟨mem_unsettled nextKnown (nextLargest.symm ▸ boundPos), nextLargest⟩)
  have topUnsettled := List.mem_toFinset.mp topMem
  have topInside : inside top := ⟨topUnsettled, rfl⟩
  refine not_lt_of_ge (smallest _ lowered) (List.sum_lt_sum _ _ ?_ ⟨top, topUnsettled, ?_⟩)
  · intro other _
    split
    · linarith
    · linarith
  · rw [if_pos topInside]
    linarith

/-- The supersolution with the smallest sum gives every state the least upper bound of its
horizon values. -/
theorem Supersolution.isLUB (wellFormed : model.WellFormed)
    (proper : model.Substochastic) {values : S → Rat} (super : model.Supersolution targets values)
    (smallest : ∀ others, model.Supersolution targets others →
      ((model.unsettled targets).map values).sum ≤ ((model.unsettled targets).map others).sum)
    {state : S} (known : model.contains state = true) :
    IsLUB (Set.range fun steps => model.horizonValue targets steps state) (values state) := by
  constructor
  · rintro _ ⟨steps, rfl⟩
    exact super.horizonValue_le wellFormed proper known steps
  · intro bound isBound
    have belowLimit := super.le_limitValue wellFormed proper smallest known
    have limitBelow : model.limitValue targets state ≤ bound := by
      apply ciSup_le
      intro steps
      exact_mod_cast isBound ⟨steps, rfl⟩
    exact_mod_cast belowLimit.trans limitBelow

end Model

end MarkovDecision
