import MarkovDecision.Proofs.LinearProgram.Optimum
import MarkovDecision.Proofs.Reachability.Classification
import MarkovDecision.Proofs.Reachability.Horizon

/-!
# The constraints of a reachability problem

An assignment of the variables stands for values of all states: the settled states have theirs,
and the unsettled ones those of their variables.  A constraint says that the state is worth at
least what one action promises.

Coefficients are left out of a constraint where they are small, and a constraint without
coefficients is left out of the program.  In a resolved model nothing is lost by this, because
small coefficients are zero and a constraint without coefficients is that of an action that stays
for certain.
-/

namespace MarkovDecision

open Std (TreeMap TransOrd LawfulEqOrd)

namespace Model

variable {S A : Type} [Ord S]

section Constraints

/-- The values of all states that an assignment of the variables stands for. -/
def completed (settled : ValueTable S Rat) (indices : TreeMap S Nat) (values : Nat → Rat)
    (state : S) : Rat :=
  match indices[state]? with
  | some index => values index
  | none => settled.getD state 0

/-- Takes an entry of a distribution into the coefficients or into the bound. -/
def gatherTerm (settled : ValueTable S Rat) (indices : TreeMap S Nat) :
    TreeMap Nat Rat × Rat → S × Rat → TreeMap Nat Rat × Rat
  | (coefficients, bound), (state, probability) =>
    match indices[state]? with
    | some index => (coefficients.alter index fun coefficient? =>
        some (coefficient?.getD 0 - probability), bound)
    | none => (coefficients, bound + probability * settled.getD state 0)

/-- The coefficients and the bound that come from a distribution. -/
def gathered (settled : ValueTable S Rat) (indices : TreeMap S Nat) (own : Nat)
    (distribution : Distribution S Rat) : TreeMap Nat Rat × Rat :=
  distribution.toList.foldl (gatherTerm settled indices) ((∅ : TreeMap Nat Rat).insert own 1, 0)

def significantTerms (coefficients : TreeMap Nat Rat) : List (Nat × Rat) :=
  coefficients.toList.filter fun entry => negligible < Number.magnitude entry.2

/-- A coefficient as it is posted: one that is too small counts as zero. -/
def retained (coefficient : Rat) : Rat :=
  if negligible < |coefficient| then coefficient else 0

theorem retained_zero : retained 0 = 0 :=
  ite_self 0

theorem retained_of_large {coefficient : Rat} (isLarge : negligible < |coefficient|) :
    retained coefficient = coefficient :=
  if_pos isLarge

theorem retained_eq_zero_iff (coefficient : Rat) :
    retained coefficient = 0 ↔ ¬negligible < |coefficient| := by
  unfold retained
  split
  · rename_i isLarge
    have different : coefficient ≠ 0 := abs_pos.mp (negligible_pos.trans isLarge)
    simp [different, isLarge]
  · simp_all

theorem abs_retained_sub_le (coefficient : Rat) :
    |retained coefficient - coefficient| ≤ negligible := by
  unfold retained
  split
  · rw [sub_self, abs_zero]
    exact negligible_pos.le
  · rename_i isSmall
    rw [zero_sub, abs_neg]
    exact not_lt.mp isSmall

theorem actionConstraint?_eq (settled : ValueTable S Rat) (indices : TreeMap S Nat) (own : Nat)
    (distribution : Distribution S Rat) :
    actionConstraint? settled indices own distribution =
      if (significantTerms (gathered settled indices own distribution).1).isEmpty then none
      else some ⟨significantTerms (gathered settled indices own distribution).1,
        (gathered settled indices own distribution).2⟩ :=
  rfl

variable (settled : ValueTable S Rat) (indices : TreeMap S Nat) (own : Nat)
  (distribution : Distribution S Rat)

/-- The linear combination and the bound differ by what the state is worth and what the action
promises. -/
theorem expected_gathered (values : Nat → Rat) :
    expected (gathered settled indices own distribution).1 values -
        (gathered settled indices own distribution).2 =
      values own - expected distribution (completed settled indices values) := by
  have folded (entries : List (S × Rat)) (start : TreeMap Nat Rat × Rat) :
      let result := entries.foldl (gatherTerm settled indices) start
      expected result.1 values - result.2 = expected start.1 values - start.2 -
        (entries.map fun entry => entry.2 * completed settled indices values entry.1).sum := by
    induction entries generalizing start with
    | nil => simp
    | cons entry entries ih =>
        obtain ⟨state, probability⟩ := entry
        simp only [List.foldl_cons, List.map_cons, List.sum_cons, completed, gatherTerm] at ih ⊢
        rw [ih]
        cases indices[state]? with
        | some index =>
            simp only [sub_eq_add_neg (Option.getD _ _) probability, expected_alter]
            ring
        | none =>
            simp only
            ring
  have single : expected ((∅ : TreeMap Nat Rat).insert own 1) values = values own := by
    have inserted := expected_alter (∅ : TreeMap Nat Rat) own 1 values
    rw [expected_empty, zero_add, one_mul] at inserted
    rw [← inserted]
    apply expected_eq_of_getElem?_eq
    intro index
    rw [TreeMap.getElem?_alter, TreeMap.getElem?_insert]
    simp
  have total := folded distribution.toList ((∅ : TreeMap Nat Rat).insert own 1, 0)
  rw [single, sub_zero] at total
  exact total

/-- The bound is what the action promises when the variables are zero. -/
theorem gathered_bound :
    (gathered settled indices own distribution).2 =
      expected distribution (completed settled indices fun _ => 0) := by
  have balance := expected_gathered settled indices own distribution fun _ => 0
  rw [expected_const, mul_zero] at balance
  linarith

variable [TransOrd S] [LawfulEqOrd S]

/-- The coefficients of a constraint: one for the state itself, less the probabilities. -/
theorem getD_gathered {state : S} {index : Nat} (hasIndex : indices[state]? = some index)
    (injective : ∀ other, indices[other]? = some index → other = state) :
    (gathered settled indices own distribution).1.getD index 0 =
      (if own = index then 1 else 0) - distribution.getD state 0 := by
  let indicator (position : Nat) : Rat := if position = index then 1 else 0
  have balance := expected_gathered settled indices own distribution indicator
  rw [expected_indicator _ index (if_pos rfl) fun other different => if_neg different,
    gathered_bound] at balance
  have share : expected distribution (completed settled indices indicator) -
      expected distribution (completed settled indices fun _ => 0) =
        distribution.getD state 0 := by
    rw [← expected_sub]
    apply expected_indicator
    · simp [completed, hasIndex, indicator]
    · intro other different
      simp only [completed]
      cases otherIndex : indices[other]? with
      | none => exact sub_self _
      | some position =>
          have apart : position ≠ index := fun same =>
            different (injective other (by rw [otherIndex, same]))
          simp [indicator, apart]
  simp only [indicator] at balance
  linarith

omit [TransOrd S] [LawfulEqOrd S] in
theorem contains_gathered {index : Nat}
    (present : (gathered settled indices own distribution).1.contains index = true) :
    index = own ∨ ∃ state : S, indices[state]? = some index := by
  have folded (entries : List (S × Rat)) (start : TreeMap Nat Rat × Rat)
      (startKeys : start.1.contains index = true →
        index = own ∨ ∃ state : S, indices[state]? = some index) :
      (entries.foldl (gatherTerm settled indices) start).1.contains index = true →
        index = own ∨ ∃ state : S, indices[state]? = some index := by
    induction entries generalizing start with
    | nil => exact startKeys
    | cons entry entries ih =>
        apply ih
        intro present
        rw [gatherTerm] at present
        cases stateIndex : indices[entry.1]? with
        | none =>
            rw [stateIndex] at present
            exact startKeys present
        | some position =>
            rw [stateIndex, TreeMap.contains_alter] at present
            split at present
            · rename_i same
              exact Or.inr ⟨entry.1, Std.compare_eq_iff_eq.mp same ▸ stateIndex⟩
            · exact startKeys present
  refine folded distribution.toList _ ?_ present
  intro startPresent
  simp only [TreeMap.contains_insert, TreeMap.contains_emptyc, Bool.or_false, beq_iff_eq]
    at startPresent
  exact Or.inl (Std.compare_eq_iff_eq.mp startPresent).symm

/-- The terms that are posted sum to the combination in which the small coefficients count as
zero. -/
theorem sum_significantTerms_eq_retained (coefficients : TreeMap Nat Rat) (values : Nat → Rat) :
    ((significantTerms coefficients).map fun entry => entry.2 * values entry.1).sum =
      (coefficients.toList.map fun entry => retained entry.2 * values entry.1).sum := by
  unfold significantTerms
  induction coefficients.toList with
  | nil => rfl
  | cons entry entries ih =>
      rw [List.filter_cons, List.map_cons, List.sum_cons, magnitude_eq_abs, ← ih, retained]
      by_cases isLarge : negligible < |entry.2|
      · rw [if_pos (by simpa using isLarge), if_pos isLarge, List.map_cons, List.sum_cons]
      · rw [if_neg (by simpa using isLarge), if_neg isLarge, zero_mul, zero_add]

/-- A combination of the terms that are not too small is the whole combination, if those that are
too small are zero. -/
theorem sum_significantTerms {coefficients : TreeMap Nat Rat}
    (resolved : ∀ entry ∈ coefficients.toList, entry.2 = 0 ∨ negligible < |entry.2|)
    (values : Nat → Rat) :
    ((significantTerms coefficients).map fun entry => entry.2 * values entry.1).sum =
      expected coefficients values := by
  rw [sum_significantTerms_eq_retained, expected]
  congr 1
  refine List.map_congr_left fun entry member => ?_
  rcases resolved entry member with isZero | isLarge
  · rw [isZero, retained_zero]
  · rw [retained_of_large isLarge]

/-- The terms that are not too small sum to at least the whole, if those that are too small are
below zero. -/
theorem expected_one_le_sum_significantTerms {coefficients : TreeMap Nat Rat}
    (dropped : ∀ entry ∈ coefficients.toList, ¬negligible < |entry.2| → entry.2 ≤ 0) :
    expected coefficients (fun _ => 1) ≤
      ((significantTerms coefficients).map fun entry => entry.2 * 1).sum := by
  rw [sum_significantTerms_eq_retained coefficients fun _ => 1, expected]
  refine List.sum_le_sum fun entry member => ?_
  simp only [mul_one, retained]
  split
  · exact le_refl _
  · rename_i isSmall
    exact dropped entry member isSmall

section Meaning

variable {settled : ValueTable S Rat} {indices : TreeMap S Nat}
  {own : Nat} {distribution : Distribution S Rat} {state : S}

theorem gathered_entry (ownIndex : indices[state]? = some own)
    (injective : ∀ (first second : S) (index : Nat), indices[first]? = some index →
      indices[second]? = some index → first = second) {entry : Nat × Rat}
    (member : entry ∈ (gathered settled indices own distribution).1.toList) :
    (entry.1 = own ∧ entry.2 = 1 - distribution.getD state 0) ∨
      ∃ other, other ≠ state ∧ indices[other]? = some entry.1 ∧
        entry.2 = -distribution.getD other 0 := by
  obtain ⟨index, coefficient⟩ := entry
  have found := TreeMap.mem_toList_iff_getElem?_eq_some.mp member
  have present : (gathered settled indices own distribution).1.contains index = true := by
    rw [TreeMap.contains_eq_isSome_getElem?, found]
    rfl
  have valueEq : (gathered settled indices own distribution).1.getD index 0 = coefficient := by
    rw [TreeMap.getD_eq_getD_getElem?, found, Option.getD_some]
  by_cases isOwn : own = index
  · subst isOwn
    rw [getD_gathered settled indices own distribution ownIndex
      fun other otherIndex => injective other state own otherIndex ownIndex, if_pos rfl] at valueEq
    exact Or.inl ⟨rfl, valueEq.symm⟩
  · rcases contains_gathered settled indices own distribution present with same | ⟨other, hasIndex⟩
    · exact (isOwn same.symm).elim
    · rw [getD_gathered settled indices own distribution hasIndex
        fun another anotherIndex => injective another other index anotherIndex hasIndex,
        if_neg isOwn, zero_sub] at valueEq
      refine Or.inr ⟨other, ?_, hasIndex, valueEq.symm⟩
      rintro rfl
      rw [ownIndex] at hasIndex
      exact isOwn (Option.some.inj hasIndex)

theorem gathered_resolved (ownIndex : indices[state]? = some own)
    (injective : ∀ (first second : S) (index : Nat), indices[first]? = some index →
      indices[second]? = some index → first = second)
    (visible : ∀ entry ∈ distribution.toList, entry.2 = 0 ∨ negligible < entry.2)
    (staying : ∀ entry ∈ distribution.toList, compare entry.1 state = .eq →
      entry.2 = 1 ∨ entry.2 < 1 - negligible) :
    ∀ entry ∈ (gathered settled indices own distribution).1.toList,
      entry.2 = 0 ∨ negligible < |entry.2| := by
  intro entry member
  rcases gathered_entry ownIndex injective member with ⟨-, valueEq⟩ | ⟨other, -, -, valueEq⟩
  · rw [valueEq, TreeMap.getD_eq_getD_getElem?]
    cases entryEq : distribution[state]? with
    | none =>
        rw [Option.getD_none, sub_zero, abs_one]
        exact Or.inr negligible_lt_one
    | some probability =>
        rw [Option.getD_some]
        rcases staying (state, probability) (TreeMap.mem_toList_iff_getElem?_eq_some.mpr entryEq)
          Std.ReflCmp.compare_self with isOne | isLess
        · exact Or.inl (sub_eq_zero.mpr isOne.symm)
        · exact Or.inr ((lt_sub_comm.mp isLess).trans_le (le_abs_self _))
  · rw [valueEq, neg_eq_zero, abs_neg, TreeMap.getD_eq_getD_getElem?]
    cases entryEq : distribution[other]? with
    | none => exact Or.inl rfl
    | some probability =>
        rw [Option.getD_some]
        rcases visible (other, probability)
          (TreeMap.mem_toList_iff_getElem?_eq_some.mpr entryEq) with isZero | isLarge
        · exact Or.inl isZero
        · exact Or.inr (isLarge.trans_le (le_abs_self probability))

omit [TransOrd S] [LawfulEqOrd S] in
/-- With resolved coefficients, a constraint compares what the state is worth with what the action
promises. -/
theorem combination_sub_bound
    (resolved : ∀ entry ∈ (gathered settled indices own distribution).1.toList,
      entry.2 = 0 ∨ negligible < |entry.2|) {constraint : Constraint Rat}
    (produced : actionConstraint? settled indices own distribution = some constraint)
    (values : Nat → Rat) :
    constraint.combination values - constraint.bound =
      values own - expected distribution (completed settled indices values) := by
  rw [actionConstraint?_eq] at produced
  split at produced
  · cases produced
  · cases produced
    rw [Constraint.combination_eq_sum, sum_significantTerms resolved, expected_gathered]

omit [TransOrd S] [LawfulEqOrd S] in
/-- With resolved coefficients, an action that has no constraint promises what the state is worth
and the bound on top of it. -/
theorem expected_of_no_constraint
    (resolved : ∀ entry ∈ (gathered settled indices own distribution).1.toList,
      entry.2 = 0 ∨ negligible < |entry.2|)
    (noConstraint : actionConstraint? settled indices own distribution = none)
    (values : Nat → Rat) :
    expected distribution (completed settled indices values) =
      values own + (gathered settled indices own distribution).2 := by
  have vanishes : expected (gathered settled indices own distribution).1 values = 0 := by
    rw [actionConstraint?_eq] at noConstraint
    split at noConstraint
    · rename_i isEmpty
      rw [← sum_significantTerms resolved, List.isEmpty_iff.mp isEmpty]
      rfl
    · cases noConstraint
  have balance := expected_gathered settled indices own distribution values
  rw [vanishes] at balance
  linarith

theorem exists_actionConstraint (ownIndex : indices[state]? = some own)
    (injective : ∀ (first second : S) (index : Nat), indices[first]? = some index →
      indices[second]? = some index → first = second)
    (leaves : distribution.getD state 0 < 1 - negligible) :
    ∃ constraint, actionConstraint? settled indices own distribution = some constraint := by
  have ownEq := getD_gathered settled indices own distribution ownIndex
    fun other otherIndex => injective other state own otherIndex ownIndex
  rw [if_pos rfl] at ownEq
  have isLarge : negligible < 1 - distribution.getD state 0 := lt_sub_comm.mp leaves
  have isKept : (own, 1 - distribution.getD state 0) ∈
      significantTerms (gathered settled indices own distribution).1 := by
    refine List.mem_filter.mpr ⟨TreeMap.mem_toList_iff_getElem?_eq_some.mpr ?_, ?_⟩
    · cases found : (gathered settled indices own distribution).1[own]? with
      | none =>
          rw [TreeMap.getD_eq_getD_getElem?, found, Option.getD_none] at ownEq
          exact absurd ownEq (negligible_pos.trans isLarge).ne
      | some coefficient =>
          rw [TreeMap.getD_eq_getD_getElem?, found, Option.getD_some] at ownEq
          rw [ownEq]
    · rw [decide_eq_true_eq, magnitude_eq_abs]
      exact isLarge.trans_le (le_abs_self _)
  rw [actionConstraint?_eq, if_neg]
  · exact ⟨_, rfl⟩
  · intro isEmpty
    rw [List.isEmpty_iff.mp isEmpty] at isKept
    cases isKept

/-- An action that has no constraint stays for certain. -/
theorem stays_of_no_constraint (ownIndex : indices[state]? = some own)
    (injective : ∀ (first second : S) (index : Nat), indices[first]? = some index →
      indices[second]? = some index → first = second)
    (staying : ∀ entry ∈ distribution.toList, compare entry.1 state = .eq →
      entry.2 = 1 ∨ entry.2 < 1 - negligible)
    (noConstraint : actionConstraint? settled indices own distribution = none) :
    distribution.getD state 0 = 1 := by
  have notLeft : ¬distribution.getD state 0 < 1 - negligible := by
    intro leaves
    obtain ⟨constraint, produced⟩ : ∃ constraint,
        actionConstraint? settled indices own distribution = some constraint :=
      exists_actionConstraint ownIndex injective leaves
    rw [noConstraint] at produced
    cases produced
  rw [TreeMap.getD_eq_getD_getElem?] at notLeft ⊢
  cases entryEq : distribution[state]? with
  | none =>
      rw [entryEq, Option.getD_none] at notLeft
      exact (notLeft (sub_pos.mpr negligible_lt_one)).elim
  | some probability =>
      rw [entryEq, Option.getD_some] at notLeft
      exact (staying (state, probability) (TreeMap.mem_toList_iff_getElem?_eq_some.mpr entryEq)
        Std.ReflCmp.compare_self).resolve_right notLeft

/-- A constraint that is left out would hold of any assignment, and the others say that the state
is worth at least what the action promises. -/
theorem actionConstraint?_holds_iff (ownIndex : indices[state]? = some own)
    (injective : ∀ (first second : S) (index : Nat), indices[first]? = some index →
      indices[second]? = some index → first = second)
    (visible : ∀ entry ∈ distribution.toList, entry.2 = 0 ∨ negligible < entry.2)
    (staying : ∀ entry ∈ distribution.toList, compare entry.1 state = .eq →
      entry.2 = 1 ∨ entry.2 < 1 - negligible)
    (total : expected distribution (completed settled indices fun _ => 1) ≤ 1)
    (values : Nat → Rat) :
    (∀ constraint, actionConstraint? settled indices own distribution = some constraint →
        constraint.Holds values) ↔
      expected distribution (completed settled indices values) ≤ values own := by
  have resolved : ∀ entry ∈ (gathered settled indices own distribution).1.toList,
      entry.2 = 0 ∨ negligible < |entry.2| :=
    gathered_resolved ownIndex injective visible staying
  cases produced : actionConstraint? settled indices own distribution with
  | none =>
      have promisedOne := expected_of_no_constraint resolved produced fun _ => 1
      have promisedValues := expected_of_no_constraint resolved produced values
      constructor
      · intro _
        linarith
      · intro _ constraint impossible
        cases impossible
  | some constraint =>
      have difference := combination_sub_bound resolved produced values
      simp only [Option.some.injEq, forall_eq', Constraint.Holds]
      constructor
      · intro reaches
        linarith
      · intro promised
        linarith

/-- A constraint holds when all variables are one, if no value is above one and the probabilities
sum to at most one.  The terms that are left out are below zero, except for that of the state
itself; but where that one is too small, so are all others. -/
theorem actionConstraint?_holds_one (ownIndex : indices[state]? = some own)
    (injective : ∀ (first second : S) (index : Nat), indices[first]? = some index →
      indices[second]? = some index → first = second)
    (nonneg : ∀ entry ∈ distribution.toList, 0 ≤ entry.2)
    (total : totalProbability distribution ≤ 1)
    (promised : expected distribution (completed settled indices fun _ => 1) ≤ 1)
    {constraint : Constraint Rat}
    (produced : actionConstraint? settled indices own distribution = some constraint) :
    constraint.Holds fun _ => 1 := by
  rw [actionConstraint?_eq] at produced
  split at produced
  · cases produced
  · rename_i hasTerms
    cases produced
    have dropped : ∀ entry ∈ (gathered settled indices own distribution).1.toList,
        ¬negligible < |entry.2| → entry.2 ≤ 0 := by
      intro entry member isSmall
      rcases gathered_entry ownIndex injective member with ⟨-, ownEq⟩ | ⟨other, -, -, valueEq⟩
      · refine (hasTerms (List.isEmpty_iff.mpr (List.filter_eq_nil_iff.mpr ?_))).elim
        intro term termMem
        rw [decide_eq_true_eq, magnitude_eq_abs]
        rcases gathered_entry ownIndex injective termMem with
          ⟨-, termEq⟩ | ⟨other, different, -, termEq⟩
        · rw [termEq, ← ownEq]
          exact isSmall
        · have pairTotal := getD_add_getD_le nonneg different
          rw [termEq, abs_neg, abs_of_nonneg (getD_nonneg nonneg other)]
          linarith [le_abs_self entry.2]
      · rw [valueEq]
        exact neg_nonpos.mpr (getD_nonneg nonneg other)
    have kept := expected_one_le_sum_significantTerms dropped
    have balance := expected_gathered settled indices own distribution fun _ => 1
    rw [Constraint.Holds, Constraint.combination_eq_sum]
    linarith

end Meaning

end Constraints

end Model

end MarkovDecision
