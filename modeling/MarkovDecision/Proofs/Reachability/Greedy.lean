import MarkovDecision.Proofs.Reachability.Limit

/-!
# Greedy policies

The greatest probabilities of reaching the targets solve the equations of Bellman, and a greedy
policy takes in every state an action that attains them.  That alone does not make the policy
attain them: where actions tie it may go round for ever.  It does where every step leads down a
rank, because then the equations can be followed to their end.
-/

namespace MarkovDecision

open Std (TreeMap TransOrd LawfulEqOrd)

variable {S A : Type} [Ord S] [Ord A]

omit [Ord A] in
theorem actionValue_eq_expected (distribution : Distribution S Rat) (values : ValueTable S Rat) :
    actionValue distribution values = expected distribution fun state => values.getD state 0 := by
  rw [actionValue, number_sum_eq_sum]
  rfl

namespace Model

/-- The probability of coming to a target within a number of steps under a policy.  Runs end where
the policy has no action. -/
def policyValue (model : Model S A Rat) (targets : LabelSet S) (policy : Policy S A) :
    Nat → S → Rat
  | 0, state => if targets.contains state then 1 else 0
  | steps + 1, state =>
    if targets.contains state then 1
    else match policy[state]? with
      | none => 0
      | some action => expected ((model.actions state).getD action ∅)
          (model.policyValue targets policy steps)

/-- The values of the states other than targets are the greatest of what their actions promise. -/
def SolvesBellman (model : Model S A Rat) (targets : LabelSet S) (values : S → Rat) : Prop :=
  ∀ state, model.contains state = true →
    values state = if targets.contains state then 1
      else greatest ((model.actions state).toList.map fun offer => expected offer.2 values)

variable {model : Model S A Rat} {targets : LabelSet S}

/-- In a state that is no target the best action is the first one with the greatest value. -/
theorem exists_first_bestAction? [TransOrd A] (values : ValueTable S Rat) {state : S}
    (noTarget : ¬targets.contains state = true)
    (hasActions : (model.actions state).toList ≠ []) :
    ∃ offer ∈ (model.actions state).toList, model.bestAction? targets values state = some offer.1 ∧
      ∀ other ∈ (model.actions state).toList,
        actionValue other.2 values ≤ actionValue offer.2 values ∧
          (actionValue other.2 values = actionValue offer.2 values →
            (compare offer.1 other.1).isLE = true) := by
  obtain ⟨offer, offered, found, above⟩ := exists_firstBest?_toList hasActions
    fun offer => actionValue offer.2 values
  refine ⟨offer, offered, ?_, above⟩
  rw [bestAction?, if_neg noTarget]
  exact congrArg (Option.map (·.1)) found

theorem exists_bestAction? [TransOrd A] (values : ValueTable S Rat) {state : S}
    (noTarget : ¬targets.contains state = true)
    (hasActions : (model.actions state).toList ≠ []) :
    ∃ offer ∈ (model.actions state).toList, model.bestAction? targets values state = some offer.1 ∧
      expected offer.2 (fun next => values.getD next 0) =
        greatest ((model.actions state).toList.map fun other =>
          expected other.2 fun next => values.getD next 0) := by
  obtain ⟨offer, offered, isBest, above⟩ := exists_first_bestAction? values noTarget hasActions
  refine ⟨offer, offered, isBest, ?_⟩
  symm
  apply greatest_eq (List.mem_map_of_mem offered)
  intro value member
  obtain ⟨other, otherMem, rfl⟩ := List.mem_map.mp member
  rw [← actionValue_eq_expected, ← actionValue_eq_expected]
  exact (above other otherMem).1

theorem bestAction?_eq_none (values : ValueTable S Rat) {state : S}
    (noTarget : ¬targets.contains state = true) (noActions : (model.actions state).toList = []) :
    model.bestAction? targets values state = none := by
  rw [bestAction?, if_neg noTarget, noActions]
  rfl

theorem isSome_bestAction?_iff [TransOrd A] (values : ValueTable S Rat) (state : S) :
    (model.bestAction? targets values state).isSome = true ↔ (model.actions state).toList ≠ [] := by
  by_cases isTarget : targets.contains state = true
  · rw [bestAction?, if_pos isTarget, TreeMap.isSome_minKey?_iff_isEmpty_eq_false,
      ← TreeMap.isEmpty_toList, List.isEmpty_eq_false_iff]
  · constructor
    · intro isSome noActions
      rw [bestAction?_eq_none values isTarget noActions] at isSome
      cases isSome
    · intro hasActions
      obtain ⟨offer, -, bestEq, -⟩ := exists_first_bestAction? values isTarget hasActions
      rw [bestEq]
      rfl

variable [TransOrd S] [LawfulEqOrd S] [TransOrd A]

/-- Rational least upper bounds of what finitely many steps can do solve the equations. -/
theorem WellFormed.solvesBellman (wellFormed : model.WellFormed) (proper : model.Substochastic)
    {values : S → Rat}
    (isLUB : ∀ state, model.contains state = true →
      IsLUB (Set.range fun steps => model.horizonValue targets steps state) (values state)) :
    model.SolvesBellman targets values := by
  intro state known
  by_cases isTarget : targets.contains state = true
  · rw [if_pos isTarget]
    apply le_antisymm
    · apply (isLUB state known).2
      rintro _ ⟨steps, rfl⟩
      exact proper.horizonValue_le_one targets steps state
    · exact (isLUB state known).1 ⟨0, horizonValue_of_target model isTarget 0⟩
  · rw [if_neg isTarget]
    have valuesNonneg {next : S} (nextKnown : model.contains next = true) : 0 ≤ values next :=
      (proper.horizonValue_nonneg targets 0 next).trans ((isLUB next nextKnown).1 ⟨0, rfl⟩)
    apply le_antisymm
    · apply (isLUB state known).2
      rintro _ ⟨steps, rfl⟩
      apply (proper.horizonValue_le_succ targets steps state).trans
      rw [horizonValue_succ_of_not_target model isTarget]
      apply greatest_map_le
      intro offer offered
      apply expected_le_expected (proper.nonneg state offer offered)
      intro entry member
      exact (isLUB entry.1 (wellFormed.contains_entry offered member)).1 ⟨steps, rfl⟩
    · apply greatest_le (valuesNonneg known)
      intro share member
      obtain ⟨offer, offered, rfl⟩ := List.mem_map.mp member
      have promised := proper.mean_limitValue_le targets isTarget offered
      have meanEq : mean offer.2 (model.limitValue targets) =
          mean offer.2 fun next => (values next : ℝ) := by
        unfold mean
        congr 1
        apply List.map_congr_left
        intro entry entryMem
        rw [limitValue_eq_of_isLUB (isLUB entry.1 (wellFormed.contains_entry offered entryMem))]
      rw [meanEq, ← cast_expected, limitValue_eq_of_isLUB (isLUB state known)] at promised
      exact_mod_cast promised

section Policies

variable {policy : Policy S A}

omit [TransOrd S] [LawfulEqOrd S] in
theorem policyValue_succ_of_not_target (policy : Policy S A) {state : S}
    (noTarget : ¬targets.contains state = true) (steps : Nat) :
    model.policyValue targets policy (steps + 1) state = 0 ∨
      ∃ offer ∈ (model.actions state).toList,
        model.policyValue targets policy (steps + 1) state =
          expected offer.2 (model.policyValue targets policy steps) := by
  rw [policyValue, if_neg noTarget]
  cases policy[state]? with
  | none => exact Or.inl rfl
  | some action =>
      dsimp only
      rw [TreeMap.getD_eq_getD_getElem?]
      cases found : (model.actions state)[action]? with
      | none => exact Or.inl rfl
      | some distribution =>
          obtain ⟨label, -, offered⟩ :=
            TreeMap.getElem?_eq_some_iff_exists_compare_eq_eq_and_mem_toList.mp found
          exact Or.inr ⟨(label, distribution), offered, rfl⟩

omit [TransOrd S] [LawfulEqOrd S] in
theorem policyValue_nonneg (proper : model.Substochastic) (steps : Nat) (state : S) :
    0 ≤ model.policyValue targets policy steps state := by
  induction steps generalizing state with
  | zero =>
      rw [policyValue]
      split <;> simp
  | succ steps ih =>
      by_cases isTarget : targets.contains state = true
      · rw [policyValue, if_pos isTarget]
        exact zero_le_one
      · rcases policyValue_succ_of_not_target policy isTarget steps with
          stops | ⟨offer, offered, valueEq⟩
        · exact stops.ge
        · rw [valueEq]
          exact proper.expected_nonneg offered fun entry _ => ih entry.1

theorem WellFormed.policyValue_le (wellFormed : model.WellFormed) (proper : model.Substochastic)
    {values : S → Rat} (nonneg : ∀ state, model.contains state = true → 0 ≤ values state)
    (solves : model.SolvesBellman targets values) (steps : Nat) {state : S}
    (known : model.contains state = true) :
    model.policyValue targets policy steps state ≤ values state := by
  induction steps generalizing state with
  | zero =>
      rw [policyValue]
      split
      · rename_i isTarget
        rw [solves state known, if_pos isTarget]
      · exact nonneg state known
  | succ steps ih =>
      by_cases isTarget : targets.contains state = true
      · rw [policyValue, solves state known, if_pos isTarget, if_pos isTarget]
      · rcases policyValue_succ_of_not_target policy isTarget steps with
          stops | ⟨offer, offered, valueEq⟩
        · exact stops.trans_le (nonneg state known)
        · calc model.policyValue targets policy (steps + 1) state
              = expected offer.2 (model.policyValue targets policy steps) := valueEq
            _ ≤ expected offer.2 values :=
              expected_le_expected (proper.nonneg state offer offered)
                fun entry member => ih (wellFormed.contains_entry offered member)
            _ ≤ values state := by
              rw [solves state known, if_neg isTarget]
              exact le_greatest (List.mem_map.mpr ⟨offer, offered, rfl⟩)

omit [TransOrd S] [LawfulEqOrd S] [TransOrd A] in
theorem policyValue_of_target (policy : Policy S A) {state : S}
    (isTarget : targets.contains state = true) (steps : Nat) :
    model.policyValue targets policy steps state = 1 := by
  cases steps <;> rw [policyValue, if_pos isTarget]

omit [TransOrd S] [LawfulEqOrd S] in
theorem policyValue_succ_of_best {values : ValueTable S Rat} {state : S}
    (noTarget : ¬targets.contains state = true)
    (isBest : policy[state]? = model.bestAction? targets values state) {steps : Nat}
    (attained : ∀ offer ∈ (model.actions state).toList, ∀ entry ∈ offer.2.toList,
      model.policyValue targets policy steps entry.1 = values.getD entry.1 0) :
    model.policyValue targets policy (steps + 1) state =
      greatest ((model.actions state).toList.map fun offer =>
        expected offer.2 fun next => values.getD next 0) := by
  rw [policyValue, if_neg noTarget, isBest]
  by_cases hasActions : (model.actions state).toList = []
  · rw [bestAction?_eq_none values noTarget hasActions, hasActions]
    rfl
  · obtain ⟨offer, offered, bestEq, attains⟩ := exists_bestAction? values noTarget hasActions
    have distributionEq : (model.actions state).getD offer.1 ∅ = offer.2 := by
      rw [TreeMap.getD_eq_getD_getElem?, ActionTable.getElem?_of_mem offered, Option.getD_some]
    rw [bestEq, ← attains]
    dsimp only
    rw [distributionEq]
    exact expected_congr (attained offer offered)

omit [TransOrd S] [LawfulEqOrd S] [TransOrd A] in
/-- A state of worth is a target or not of the lowest rank, since some step leads down from it. -/
theorem rank_pos_of_worth {values : S → Rat} (solves : model.SolvesBellman targets values)
    {state : S} (known : model.contains state = true) (noTarget : ¬targets.contains state = true)
    (hasWorth : values state ≠ 0) {rank : S → Nat}
    (leadsDown : ∀ offer ∈ (model.actions state).toList, ∀ entry ∈ offer.2.toList,
      rank entry.1 < rank state) : 0 < rank state := by
  by_contra isLowest
  apply hasWorth
  rw [solves state known, if_neg noTarget]
  apply greatest_eq_zero
  intro share member
  obtain ⟨offer, offered, rfl⟩ := List.mem_map.mp member
  apply List.sum_eq_zero
  intro part partMem
  obtain ⟨entry, entryMem, -⟩ := List.mem_map.mp partMem
  have lower := leadsDown offer offered entry entryMem
  omega

section Attained

variable (wellFormed : model.WellFormed) (proper : model.Substochastic) {values : ValueTable S Rat}
  (nonneg : ∀ state, model.contains state = true → 0 ≤ values.getD state 0)
  (solves : model.SolvesBellman targets (values.getD · 0))
include wellFormed proper nonneg solves

theorem WellFormed.policyValue_of_worthless (steps : Nat) {state : S}
    (known : model.contains state = true) (isWorthless : values.getD state 0 = 0) :
    model.policyValue targets policy steps state = values.getD state 0 := by
  apply le_antisymm (wellFormed.policyValue_le proper nonneg solves steps known)
  rw [isWorthless]
  exact policyValue_nonneg proper steps state

/-- A greedy policy attains a solution of the equations within as many steps as the rank of a
state, if from every state of worth all steps lead down the rank. -/
theorem WellFormed.policyValue_eq
    (isGreedy : ∀ state, model.contains state = true →
      policy[state]? = model.bestAction? targets values state)
    {rank : S → Nat}
    (leadsDown : ∀ state, model.contains state = true → ¬targets.contains state = true →
      values.getD state 0 ≠ 0 → ∀ offer ∈ (model.actions state).toList,
        ∀ entry ∈ offer.2.toList, rank entry.1 < rank state)
    {steps : Nat} {state : S} (known : model.contains state = true)
    (enough : rank state ≤ steps) :
    model.policyValue targets policy steps state = values.getD state 0 := by
  induction steps using Nat.strong_induction_on generalizing state with
  | h steps ih =>
      have valueEq := solves state known
      by_cases isWorthless : values.getD state 0 = 0
      · exact wellFormed.policyValue_of_worthless proper nonneg solves steps known isWorthless
      · by_cases isTarget : targets.contains state = true
        · rw [if_pos isTarget] at valueEq
          rw [policyValue_of_target policy isTarget]
          exact valueEq.symm
        · have down := leadsDown state known isTarget isWorthless
          have isPositive := rank_pos_of_worth solves known isTarget isWorthless down
          obtain ⟨earlier, rfl⟩ : ∃ earlier, steps = earlier + 1 := ⟨steps - 1, by omega⟩
          rw [if_neg isTarget] at valueEq
          refine Eq.trans ?_ valueEq.symm
          apply policyValue_succ_of_best isTarget (isGreedy state known)
          intro offer offered entry member
          have lower := down offer offered entry member
          exact ih earlier (by omega) (wellFormed.contains_entry offered member) (by omega)

end Attained

end Policies

end Model

end MarkovDecision
