import MarkovDecision.Proofs.Guarantee.Percentile

/-!
# Larger budgets

With a lower bound the unfolding keeps every pair that it kept before, whatever the pruning mode,
and no pair promises less.  So a question is answered with no smaller probability if more may be
lost.
-/

namespace MarkovDecision

open Std (TreeMap TransOrd LawfulEqOrd)

variable {S A : Type} [Ord S] [Ord A]

namespace Guarantee

/-- The values are the greatest probabilities of success in the unfolded model. -/
def HasMaximalValues (guarantee : Guarantee S A Rat) : Prop :=
  ∀ label, guarantee.unfolding.model.contains label = true →
    (guarantee.values.getD label 0 : ℝ) = guarantee.unfolding.success label

end Guarantee

variable [TransOrd S] [LawfulEqOrd S] [TransOrd A] {model : Model S A Rat}

namespace Unfolding

variable {targets : LabelSet S} {source : S} {bound looser : Rat} {settings : UnfoldSettings Rat}

omit [TransOrd S] [LawfulEqOrd S] in
theorem keeps_of_bound_le {remaining : Option (Distances S Rat)} (looserLe : looser ≤ bound)
    {state : S} {value : Rat} (kept : keeps remaining bound state value = true) :
    keeps remaining looser state value = true := by
  cases remaining with
  | none =>
      simp only [keeps, decide_eq_true_eq] at kept ⊢
      exact looserLe.trans kept
  | some distances =>
      obtain ⟨distance, found, within⟩ := keeps_some_iff.mp kept
      exact keeps_some_iff.mpr ⟨distance, found, looserLe.trans within⟩

/-- With a lower bound no node is lost, and none succeeds less often. -/
theorem success_le_of_bound_le (wellFormed : model.WellFormed) (proper : model.Substochastic)
    (looserLe : looser ≤ bound) {tight loose : Unfolding S A Rat}
    (tightBuilt : build model source targets bound settings = .ok tight)
    (looseBuilt : build model source targets looser settings = .ok loose)
    {label : UnfoldedState S Rat} (known : tight.model.contains label = true) :
    loose.model.contains label = true ∧ tight.success label ≤ loose.success label := by
  obtain ⟨remaining, lossEq⟩ := exists_remainingLoss_of_build tightBuilt
  have tightProduct := isProduct_of_build wellFormed lossEq tightBuilt
  obtain ⟨other, otherLoss⟩ := exists_remainingLoss_of_build looseBuilt
  have looseProduct := isProduct_of_build wellFormed otherLoss looseBuilt
  rw [lossEq] at otherLoss
  cases otherLoss
  have keepsMore : ∀ state value, model.contains state = true →
      keeps remaining bound state value = true → keeps remaining looser state value = true :=
    fun _ _ _ => keeps_of_bound_le looserLe
  rcases (tightProduct.contains_iff label).mp known with rfl | ⟨state, value, rfl, isKept⟩
  · rw [tightProduct.success_bottom, looseProduct.success_bottom]
    exact ⟨(looseProduct.contains_iff _).mpr (Or.inl rfl), le_refl _⟩
  · have isLoose := isKept.mono wellFormed keepsMore
    refine ⟨looseProduct.contains_of_keptPair isLoose, ?_⟩
    apply tightProduct.success_le looseProduct wellFormed proper
      (respectsKeys_keeps remaining bound) (respectsKeys_keeps remaining looser) _ isKept isLoose
    intro steps other otherValue otherKnown _ kept dropped
    exact (dropped (keepsMore other otherValue otherKnown kept)).elim

end Unfolding

namespace Guarantee

variable {solver : Solver Rat} {settings : UnfoldSettings Rat}

/-- A solver that returns an optimum of what is posted gives maximal values. -/
theorem hasMaximalValues_of_answer (wellFormed : model.WellFormed)
    {question : Question S Rat} {guarantee : Guarantee S A Rat}
    (answered : answer model solver question settings = .ok guarantee)
    (resolved : guarantee.unfolding.model.Resolved)
    (returns : solver.ReturnsOptimum guarantee.posted) : guarantee.HasMaximalValues := by
  intro label known
  obtain ⟨value, found, isLUB⟩ :=
    exists_value_of_answer wellFormed answered resolved returns known
  rw [Unfolding.success, Model.limitValue_eq_of_isLUB isLUB, TreeMap.getD_eq_getD_getElem?, found,
    Option.getD_some]

/-- A larger budget never hurts: with a lower bound every node is still there and succeeds at least
as often, and so do the runs from the start. -/
theorem values_le_of_bound_le (wellFormed : model.WellFormed) (proper : model.Substochastic)
    {otherSolver : Solver Rat} {source : S} {targets : LabelSet S} {bound looser : Rat}
    (looserLe : looser ≤ bound) {threshold otherThreshold : Rat} {tight loose : Guarantee S A Rat}
    (tightAnswered : answer model solver ⟨source, targets, bound, threshold⟩ settings = .ok tight)
    (looseAnswered : answer model otherSolver ⟨source, targets, looser, otherThreshold⟩ settings =
      .ok loose)
    (tightMaximal : tight.HasMaximalValues) (looseMaximal : loose.HasMaximalValues) :
    (∀ label, tight.unfolding.model.contains label = true →
      loose.unfolding.model.contains label = true ∧
        tight.values.getD label 0 ≤ loose.values.getD label 0) ∧
      tight.initialProbability ≤ loose.initialProbability := by
  obtain ⟨tightBuilt, -⟩ := answer_eq_ok tightAnswered
  obtain ⟨looseBuilt, -⟩ := answer_eq_ok looseAnswered
  have atNodes : ∀ label, tight.unfolding.model.contains label = true →
      loose.unfolding.model.contains label = true ∧
        tight.values.getD label 0 ≤ loose.values.getD label 0 := by
    intro label known
    obtain ⟨looseKnown, successLe⟩ :=
      Unfolding.success_le_of_bound_le wellFormed proper looserLe tightBuilt looseBuilt known
    rw [← tightMaximal label known, ← looseMaximal label looseKnown] at successLe
    exact ⟨looseKnown, by exact_mod_cast successLe⟩
  refine ⟨atNodes, ?_⟩
  obtain ⟨remaining, lossEq⟩ := Unfolding.exists_remainingLoss_of_build tightBuilt
  have tightProduct := Unfolding.isProduct_of_build wellFormed lossEq tightBuilt
  obtain ⟨other, otherLoss⟩ := Unfolding.exists_remainingLoss_of_build looseBuilt
  have looseProduct := Unfolding.isProduct_of_build wellFormed otherLoss looseBuilt
  rw [initialProbability, initialProbability, tightProduct.initial_eq, looseProduct.initial_eq]
  exact (atNodes _ (tightProduct.contains_of_keptPair Unfolding.KeptPair.start)).2

/-- How probable it is that `tryAgain` comes to its target at once. -/
def tryOnce : Question Nat Rat :=
  ⟨0, {1}, -1, 1 / 2⟩

def tryOnceGuarantee : Guarantee Nat Nat Rat :=
  (answer Unfolding.tryAgain LinearProgram.solve tryOnce ⟨.shortestPath, 100, 0⟩).toOption.get
    (by decide +kernel)

theorem answer_tryOnce :
    answer Unfolding.tryAgain LinearProgram.solve tryOnce ⟨.shortestPath, 100, 0⟩ =
      .ok tryOnceGuarantee :=
  eq_ok_get _

theorem returnsOptimum_tryOnce : LinearProgram.solve.ReturnsOptimum tryOnceGuarantee.posted := by
  have facts : tryOnceGuarantee.posted.unknowns = 1 ∧
      tryOnceGuarantee.posted.constraints.map (fun constraint =>
        (constraint.coefficients, constraint.bound)) = [([(0, 1)], 1 / 2)] ∧
      LinearProgram.solve tryOnceGuarantee.posted = some #[1 / 2] := by
    decide +kernel
  obtain ⟨unknownsEq, constraintsEq, solved⟩ := facts
  generalize tryOnceGuarantee.posted = program at *
  have holdsIff (values : Nat → Rat) :
      (∀ constraint ∈ program.constraints, constraint.Holds values) ↔ 1 / 2 ≤ values 0 := by
    rw [LinearProgram.forall_holds_iff constraintsEq]
    simp [Constraint.Holds, Constraint.combination]
  intro solution answer
  rw [solved] at answer
  cases answer
  refine ⟨⟨?_, ?_⟩, ?_⟩
  · intro index indexLt
    have isFirst : index = 0 := by omega
    subst isFirst
    norm_num [LinearProgram.assignment]
  · rw [holdsIff]
    norm_num [LinearProgram.assignment]
  · intro others feasible
    have atLeast := (holdsIff others).mp feasible.2
    simpa [LinearProgram.objective, unknownsEq, List.range_succ, LinearProgram.assignment]
      using atLeast

/-- The theorem at work: with three to lose instead of one, `tryAgain` has a second attempt. -/
theorem values_le_of_bound_le_loseThree :
    ∃ tight loose,
      answer Unfolding.tryAgain LinearProgram.solve tryOnce ⟨.shortestPath, 100, 0⟩ = .ok tight ∧
      answer Unfolding.tryAgain LinearProgram.solve loseThree ⟨.shortestPath, 100, 0⟩ =
        .ok loose ∧
      tight.HasMaximalValues ∧ loose.HasMaximalValues ∧
      tight.initialProbability ≤ loose.initialProbability := by
  have wellFormed := Unfolding.wellFormed_tryAgain
  have resolved := Unfolding.resolved_tryAgain
  have unfoldedResolved {question : Question Nat Rat} {guarantee : Guarantee Nat Nat Rat}
      (answered : answer Unfolding.tryAgain LinearProgram.solve question ⟨.shortestPath, 100, 0⟩ =
        .ok guarantee) : guarantee.unfolding.model.Resolved := by
    have built := (answer_eq_ok answered).1
    obtain ⟨remaining, lossEq⟩ := Unfolding.exists_remainingLoss_of_build built
    have product := Unfolding.isProduct_of_build wellFormed lossEq built
    exact product.resolved wellFormed (Unfolding.respectsKeys_keeps _ _) resolved
  have tightMaximal := hasMaximalValues_of_answer wellFormed answer_tryOnce
    (unfoldedResolved answer_tryOnce) returnsOptimum_tryOnce
  have looseMaximal := hasMaximalValues_of_answer wellFormed answer_loseThree
    (unfoldedResolved answer_loseThree) (returnsOptimum_loseThree answer_loseThree)
  exact ⟨tryOnceGuarantee, loseThreeGuarantee, answer_tryOnce, answer_loseThree, tightMaximal,
    looseMaximal, (values_le_of_bound_le wellFormed resolved.toSubstochastic (by decide)
      answer_tryOnce answer_loseThree tightMaximal looseMaximal).2⟩

end Guarantee

end MarkovDecision
