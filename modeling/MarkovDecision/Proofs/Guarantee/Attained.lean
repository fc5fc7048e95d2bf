import MarkovDecision.Proofs.Guarantee.Percentile
import MarkovDecision.Proofs.Reachability.Greedy

/-!
# Policies that attain what they promise

When every step outside the targets loses something, the value of a run falls from pair to pair.
So the unfolded model has no circuits outside the targets and `bottom`: nodes are ranked by how
many of them lie below.  The greedy policy then attains the probabilities that are answered, within
as many steps as there are nodes.
-/

namespace MarkovDecision

open Std (TreeMap TransOrd LawfulEqOrd)

variable {S A : Type} [Ord S] [Ord A]

/-- Every transition of a state outside the targets has a negative weight. -/
def Model.AlwaysLoses (model : Model S A Rat) (targets : LabelSet S) : Prop :=
  ∀ state, ¬targets.contains state = true → ∀ transition ∈ model.outgoing state,
    transition.weight < 0

omit [Ord S] in
/-- A node lies below another one if its value is smaller; `bottom` lies below all pairs. -/
def UnfoldedState.isBelow : UnfoldedState S Rat → UnfoldedState S Rat → Bool
  | _, bottom => false
  | bottom, pair _ _ => true
  | pair _ value, pair _ other => value < other

omit [Ord S] in
theorem UnfoldedState.isBelow_trans {first second third : UnfoldedState S Rat}
    (below : first.isBelow second = true) (above : second.isBelow third = true) :
    first.isBelow third = true := by
  cases first <;> cases second <;> cases third <;> simp_all [isBelow]
  exact below.trans above

omit [Ord S] in
theorem UnfoldedState.not_isBelow_self (label : UnfoldedState S Rat) :
    ¬label.isBelow label = true := by
  cases label <;> simp [isBelow]

namespace Unfolding

/-- How many nodes of the unfolded model lie below a node. -/
def rank (unfolding : Unfolding S A Rat) (label : UnfoldedState S Rat) : Nat :=
  (unfolding.model.states.toList.filter (·.isBelow label)).length

theorem rank_le_size (unfolding : Unfolding S A Rat) (label : UnfoldedState S Rat) :
    unfolding.rank label ≤ unfolding.model.size := by
  simpa [rank, Model.size] using
    List.length_filter_le (·.isBelow label) unfolding.model.states.toList

theorem rank_lt_rank {unfolding : Unfolding S A Rat} {first second : UnfoldedState S Rat}
    (listed : first ∈ unfolding.model.states.toList) (below : first.isBelow second = true) :
    unfolding.rank first < unfolding.rank second := by
  have nested : unfolding.model.states.toList.filter (·.isBelow first) =
      (unfolding.model.states.toList.filter (·.isBelow second)).filter (·.isBelow first) := by
    rw [List.filter_filter]
    apply List.filter_congr
    intro label _
    rw [Bool.eq_iff_iff, Bool.and_eq_true]
    exact ⟨fun isBelow => ⟨isBelow, UnfoldedState.isBelow_trans isBelow below⟩, fun both => both.1⟩
  rw [rank, rank, nested, List.length_filter_lt_length_iff_exists]
  exact ⟨first, List.mem_filter.mpr ⟨listed, below⟩, first.not_isBelow_self⟩

variable [TransOrd S] [LawfulEqOrd S] [TransOrd A] {model : Model S A Rat} {targets : LabelSet S}
  {keep : S → Rat → Bool} {source : S} {initialValue : Rat} {unfolding : Unfolding S A Rat}

omit [TransOrd S] [LawfulEqOrd S] [TransOrd A] in
theorem lt_of_leads (loses : model.AlwaysLoses targets) {state next : S}
    {value nextValue : Rat} {action : A} (noTarget : ¬targets.contains state = true)
    (isLeading : leads model keep state value action next nextValue = true) :
    nextValue < value := by
  rw [leads, Option.any_eq_true] at isLeading
  obtain ⟨weight, weightEq, sameValue⟩ := isLeading
  rw [Model.weight?_some, Option.map_eq_some_iff] at weightEq
  obtain ⟨transition, found, rfl⟩ := weightEq
  have negative := loses state noTarget transition (Model.transition?_eq_some found).1
  rw [Bool.and_eq_true, Ordering.isEq_iff_eq_eq] at sameValue
  rw [← Std.LawfulEqCmp.eq_of_compare sameValue.2]
  linarith

theorem IsProduct.rank_lt_of_step
    (product : IsProduct model targets keep source initialValue unfolding)
    (loses : model.AlwaysLoses targets) {state : S} {value : Rat}
    (isKept : KeptPair model targets keep source initialValue state value)
    (noTarget : ¬targets.contains state = true)
    {offer : UnfoldedAction A × Distribution (UnfoldedState S Rat) Rat}
    (offered : offer ∈ (unfolding.model.actions (.pair state value)).toList)
    {entry : UnfoldedState S Rat × Rat} (member : entry ∈ offer.2.toList) :
    unfolding.rank entry.1 < unfolding.rank (.pair state value) := by
  have listed := (product.wellFormed.mem_states_iff entry.1).mpr
    (product.wellFormed.contains_entry offered member)
  apply rank_lt_rank listed
  obtain ⟨label, probability⟩ := entry
  cases label with
  | bottom => rfl
  | pair next nextValue =>
      have found := ActionTable.probability?_of_mem offered member
      obtain ⟨action, isTake, -⟩ := (product.stepActions isKept noTarget offer.1).mp
        (ActionTable.contains_of_mem offered)
      rw [isTake, product.stepEntry isKept noTarget] at found
      split at found
      · rename_i isLeading
        exact decide_eq_true (lt_of_leads loses noTarget isLeading)
      · cases found

/-- Where every step costs something, no pair leads to itself, and the unfolded model is resolved
as soon as the probabilities of the model are visible. -/
theorem IsProduct.resolved_of_loses
    (product : IsProduct model targets keep source initialValue unfolding)
    (wellFormed : model.WellFormed) (respects : RespectsKeys keep) (proper : model.Substochastic)
    (visible : model.Visible) (loses : model.AlwaysLoses targets) :
    unfolding.model.Resolved :=
  product.resolved_of_staying wellFormed respects proper visible
    fun _ _ _ noTarget isLeading => (lt_irrefl _ (lt_of_leads loses noTarget isLeading)).elim

end Unfolding

namespace Guarantee

variable [TransOrd S] [LawfulEqOrd S] [TransOrd A] {model : Model S A Rat} {solver : Solver Rat}
  {question : Question S Rat} {settings : UnfoldSettings Rat} {guarantee : Guarantee S A Rat}

omit [LawfulEqOrd S] [TransOrd A] in
theorem getElem?_policy_of_threshold_zero (wellFormed : guarantee.unfolding.model.WellFormed)
    (answered : answer model solver question settings = .ok guarantee)
    (fromZero : question.threshold = 0)
    (nonneg : ∀ label, guarantee.unfolding.model.contains label = true →
      0 ≤ guarantee.values.getD label 0)
    {label : UnfoldedState S Rat} (known : guarantee.unfolding.model.contains label = true) :
    guarantee.policy[label]? =
      guarantee.unfolding.model.bestAction? guarantee.unfolding.targets guarantee.values label := by
  have isKept : succeeds guarantee.values question.threshold label = true := by
    have atLeastZero := nonneg label known
    have tolerance : (0 : Rat) < thresholdTolerance := decimal_pos 9
    rw [succeeds, fromZero]
    exact decide_eq_true (by linarith)
  rw [getElem?_policy wellFormed answered, if_pos ⟨known, isKept⟩]

/-- When every step costs something, the policy attains the probability that is answered from every
node, within as many steps as there are nodes. -/
theorem policyValue_eq_values (wellFormed : model.WellFormed) (proper : model.Substochastic)
    (visible : model.Visible) (loses : model.AlwaysLoses question.targets)
    (fromZero : question.threshold = 0)
    (answered : answer model solver question settings = .ok guarantee)
    (returns : solver.ReturnsOptimum guarantee.posted) {label : UnfoldedState S Rat}
    (known : guarantee.unfolding.model.contains label = true) {steps : Nat}
    (enough : guarantee.unfolding.model.size ≤ steps) :
    ∃ value, guarantee.values[label]? = some value ∧
      guarantee.unfolding.model.policyValue guarantee.unfolding.targets guarantee.policy steps
        label = value := by
  obtain ⟨built, -⟩ := answer_eq_ok answered
  obtain ⟨remaining, lossEq⟩ := Unfolding.exists_remainingLoss_of_build built
  have product := Unfolding.isProduct_of_build wellFormed lossEq built
  have respects : Unfolding.RespectsKeys (Unfolding.keeps remaining question.bound) :=
    Unfolding.respectsKeys_keeps remaining question.bound
  have unfoldedProper := product.substochastic wellFormed respects proper
  have resolved := product.resolved_of_loses wellFormed respects proper visible loses
  have isLUB (label : UnfoldedState S Rat)
      (known : guarantee.unfolding.model.contains label = true) :
      IsLUB (Set.range fun steps => guarantee.unfolding.model.horizonValue
        guarantee.unfolding.targets steps label) (guarantee.values.getD label 0) := by
    obtain ⟨value, found, isLUB⟩ :=
      exists_value_of_answer wellFormed answered resolved returns known
    rw [TreeMap.getD_eq_getD_getElem?, found, Option.getD_some]
    exact isLUB
  have nonneg (label : UnfoldedState S Rat)
      (known : guarantee.unfolding.model.contains label = true) :
      0 ≤ guarantee.values.getD label 0 :=
    (unfoldedProper.horizonValue_nonneg _ 0 label).trans ((isLUB label known).1 ⟨0, rfl⟩)
  have leadsDown : ∀ label, guarantee.unfolding.model.contains label = true →
      ¬guarantee.unfolding.targets.contains label = true → guarantee.values.getD label 0 ≠ 0 →
        ∀ offer ∈ (guarantee.unfolding.model.actions label).toList, ∀ entry ∈ offer.2.toList,
          guarantee.unfolding.rank entry.1 < guarantee.unfolding.rank label := by
    intro label known noTarget hasWorth offer offered entry member
    rcases (product.contains_iff label).mp known with rfl | ⟨state, value, rfl, isKept⟩
    · refine (hasWorth ((isLUB _ known).unique ?_)).elim
      simp [product.horizonValue_bottom]
    · exact product.rank_lt_of_step loses isKept
        (mt (product.contains_targets_iff isKept).mpr noTarget) offered member
  obtain ⟨value, found, -⟩ := exists_value_of_answer wellFormed answered resolved returns known
  refine ⟨value, found, ?_⟩
  rw [product.wellFormed.policyValue_eq unfoldedProper nonneg
    (product.wellFormed.solvesBellman unfoldedProper isLUB)
    (fun _ known => getElem?_policy_of_threshold_zero product.wellFormed answered fromZero nonneg
      known) leadsDown known ((guarantee.unfolding.rank_le_size label).trans enough),
    TreeMap.getD_eq_getD_getElem?, found, Option.getD_some]

/-- How probable it is that `tryAgain` comes to its target with at most three lost, and no node is
left out of the policy. -/
def loseThreeEverywhere : Question Nat Rat :=
  ⟨0, {1}, -3, 0⟩

/-- Questions that differ in nothing but the threshold post the same program. -/
theorem returnsOptimum_loseThreeEverywhere {guarantee : Guarantee Nat Nat Rat}
    (answered : answer Unfolding.tryAgain LinearProgram.solve loseThreeEverywhere
      ⟨.shortestPath, 100, 0⟩ = .ok guarantee) :
    LinearProgram.solve.ReturnsOptimum guarantee.posted := by
  have sameUnfolding : guarantee.unfolding = loseThreeGuarantee.unfolding := by
    have built := (answer_eq_ok answered).1
    have otherBuilt := (answer_eq_ok answer_loseThree).1
    exact Except.ok.inj (built.symm.trans otherBuilt)
  rw [posted, sameUnfolding]
  exact returnsOptimum_loseThree answer_loseThree

/-- The theorem at work: every step of `tryAgain` costs something, and its policy succeeds with the
probability that is answered. -/
theorem policyValue_eq_values_loseThreeEverywhere :
    Unfolding.tryAgain.Visible ∧ Unfolding.tryAgain.AlwaysLoses {1} ∧
      ∃ guarantee, answer Unfolding.tryAgain LinearProgram.solve loseThreeEverywhere
          ⟨.shortestPath, 100, 0⟩ = .ok guarantee ∧
        LinearProgram.solve.ReturnsOptimum guarantee.posted ∧
        ∀ steps, guarantee.unfolding.model.size ≤ steps →
          ∃ value, guarantee.values[(.pair 0 0 : UnfoldedState Nat Rat)]? = some value ∧
            guarantee.unfolding.model.policyValue guarantee.unfolding.targets guarantee.policy
              steps (.pair 0 0) = value := by
  have wellFormed := Unfolding.wellFormed_tryAgain
  have resolved := Unfolding.resolved_tryAgain
  have visible := resolved.visible_transitions wellFormed
  have loss := wellFormed.forall_outgoing (show ∀ state ∈ Unfolding.tryAgain.states.toList,
    ∀ transition ∈ Unfolding.tryAgain.outgoing state, transition.weight < 0 by decide)
  have loses : Unfolding.tryAgain.AlwaysLoses {1} := fun state _ => loss state
  obtain ⟨guarantee, answered⟩ := exists_eq_ok (show (answer Unfolding.tryAgain
    LinearProgram.solve loseThreeEverywhere ⟨.shortestPath, 100, 0⟩).isOk = true by
      decide +kernel)
  have returns := returnsOptimum_loseThreeEverywhere answered
  have built := (answer_eq_ok answered).1
  obtain ⟨remaining, lossEq⟩ := Unfolding.exists_remainingLoss_of_build built
  have product := Unfolding.isProduct_of_build wellFormed lossEq built
  have known := product.contains_of_keptPair Unfolding.KeptPair.start
  exact ⟨visible, loses, guarantee, answered, returns, fun steps enough =>
    policyValue_eq_values wellFormed resolved.toSubstochastic visible loses rfl answered returns
      known enough⟩

end Guarantee

end MarkovDecision
