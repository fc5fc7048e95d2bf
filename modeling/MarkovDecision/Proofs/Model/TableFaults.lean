import MarkovDecision.Proofs.Model.Tables

/-!
# Faults of tables

Two tables that do not describe a model are refused for the first fault in the order of their keys:
of all states that offer actions the first with a faulty one, of its actions the first that is
faulty.  An action is faulty because it has no distribution, or else because of its first
probability that is none, or else because of its sum.
-/

namespace MarkovDecision

open Std (TreeMap TransOrd TransCmp OrientedCmp)

theorem exists_split_toList_iff {K V : Type} [Ord K] [TransOrd K] (table : TreeMap K V)
    (Before Here : K × V → Prop) :
    (∃ earlier entry later, table.toList = earlier ++ entry :: later ∧
        (∀ other ∈ earlier, Before other) ∧ Here entry) ↔
      ∃ entry ∈ table.toList, Here entry ∧
        ∀ other ∈ table.toList, compare other.1 entry.1 = .lt → Before other := by
  have ordered := TreeMap.ordered_keys_toList (t := table)
  constructor
  · rintro ⟨earlier, entry, later, split, before, here⟩
    rw [split] at ordered ⊢
    refine ⟨entry, by simp, here, fun other member smaller => ?_⟩
    obtain ⟨-, behind, -⟩ := List.pairwise_append.mp ordered
    rcases List.mem_append.mp member with isEarlier | notEarlier
    · exact before other isEarlier
    · rcases List.mem_cons.mp notEarlier with rfl | isLater
      · cases smaller.symm.trans Std.ReflCmp.compare_self
      · have greater := (List.pairwise_cons.mp behind).1 other isLater
        rw [OrientedCmp.gt_of_lt greater] at smaller
        cases smaller
  · rintro ⟨entry, member, here, before⟩
    obtain ⟨earlier, later, split⟩ := List.append_of_mem member
    refine ⟨earlier, entry, later, split, fun other isEarlier => ?_, here⟩
    rw [split] at ordered before
    exact before other (by simp [isEarlier])
      ((List.pairwise_append.mp ordered).2.2 other isEarlier entry (by simp))

/-- The entry of a table that is found first is the one with the smallest key that passes. -/
theorem find?_toList_eq_some_iff {K V : Type} [Ord K] [TransOrd K] (table : TreeMap K V)
    (passes : K × V → Bool) (entry : K × V) :
    table.toList.find? passes = some entry ↔
      entry ∈ table.toList ∧ passes entry = true ∧
        ∀ other ∈ table.toList, compare other.1 entry.1 = .lt → passes other = false := by
  have splits := exists_split_toList_iff table (fun other => passes other = false)
    fun other => other = entry ∧ passes entry = true
  rw [List.find?_eq_some_iff_append]
  constructor
  · rintro ⟨passing, earlier, later, split, before⟩
    obtain ⟨_, member, ⟨rfl, -⟩, smaller⟩ := splits.mp
      ⟨earlier, entry, later, split, by simpa using before, rfl, passing⟩
    exact ⟨member, passing, smaller⟩
  · rintro ⟨member, passing, smaller⟩
    obtain ⟨earlier, _, later, split, before, rfl, -⟩ :=
      splits.mpr ⟨entry, member, ⟨rfl, passing⟩, smaller⟩
    exact ⟨passing, earlier, later, split, by simpa using before⟩

variable {S A R : Type} [Ord S] [Ord A] [Number R]

namespace Model

/-- What is wrong with an action that a state offers. -/
inductive Fault (distributions : DistributionTable S A R) (state : S) (action : A) :
    TableError S A R → Prop
  | missing (absent : distributions[action]? = none) :
      Fault distributions state action (.missingDistribution state action)
  | invalid {distribution : Distribution S R} {target : S} {probability : R}
      (found : distributions[action]? = some distribution)
      (member : (target, probability) ∈ distribution.toList)
      (isFaulty : isProbability probability = false)
      (isFirst : ∀ entry ∈ distribution.toList, compare entry.1 target = .lt →
        isProbability entry.2 = true) :
      Fault distributions state action (.invalidProbability state action target probability)
  | unbalanced {distribution : Distribution S R}
      (found : distributions[action]? = some distribution)
      (probabilities : ∀ entry ∈ distribution.toList, isProbability entry.2 = true)
      (excess : sumTolerance < Number.magnitude (distribution.values.foldl (· + ·) 0 - 1)) :
      Fault distributions state action
        (.unbalancedDistribution state action (distribution.values.foldl (· + ·) 0))

/-- The first of the actions that a state offers to be faulty has this fault. -/
def FirstFaultAt (distributions : DistributionTable S A R) (entry : S × TreeMap A R)
    (fault : TableError S A R) : Prop :=
  ∃ offer ∈ entry.2.toList, Fault distributions entry.1 offer.1 fault ∧
    ∀ earlier ∈ entry.2.toList, compare earlier.1 offer.1 = .lt →
      HasBalanced distributions earlier.1

/-- Of all that is wrong with the tables, this comes first in the order of states and actions. -/
def FirstFault (costs : CostTable S A R) (distributions : DistributionTable S A R)
    (fault : TableError S A R) : Prop :=
  ∃ entry ∈ costs.toList, FirstFaultAt distributions entry fault ∧
    ∀ other ∈ costs.toList, compare other.1 entry.1 = .lt →
      ∀ earlier ∈ other.2.toList, HasBalanced distributions earlier.1

section Faults

variable [TransOrd S] {distributions : DistributionTable S A R}

theorem find?_faulty_eq_some_iff (distribution : Distribution S R) (target : S) (probability : R) :
    (distribution.toList.find? fun entry => !isProbability entry.2) =
        some (target, probability) ↔
      (target, probability) ∈ distribution.toList ∧ isProbability probability = false ∧
        ∀ entry ∈ distribution.toList, compare entry.1 target = .lt →
          isProbability entry.2 = true := by
  rw [find?_toList_eq_some_iff]
  simp only [Bool.not_eq_true', Bool.not_eq_false']

omit [TransOrd S] in
theorem find?_faulty_eq_none_iff (distribution : Distribution S R) :
    (distribution.toList.find? fun entry => !isProbability entry.2) = none ↔
      ∀ entry ∈ distribution.toList, isProbability entry.2 = true := by
  simp [List.find?_eq_none]

theorem checkedDistribution_eq_error_iff (state : S) (action : A) (fault : TableError S A R) :
    checkedDistribution distributions state action = .error fault ↔
      Fault distributions state action fault := by
  unfold checkedDistribution
  constructor
  · intro failed
    split at failed
    · rename_i absent
      cases failed
      exact .missing absent
    · rename_i distribution found
      split at failed
      · rename_i target probability faulty
        cases failed
        obtain ⟨member, isFaulty, isFirst⟩ := (find?_faulty_eq_some_iff _ _ _).mp faulty
        exact .invalid found member isFaulty isFirst
      · rename_i noneFaulty
        dsimp only at failed
        split at failed
        · rename_i excess
          cases failed
          exact .unbalanced found ((find?_faulty_eq_none_iff _).mp noneFaulty) excess
        · cases failed
  · rintro (absent | ⟨found, member, isFaulty, isFirst⟩ | ⟨found, probabilities, excess⟩)
    · rw [absent]
    · rw [found]
      dsimp only
      rw [(find?_faulty_eq_some_iff _ _ _).mpr ⟨member, isFaulty, isFirst⟩]
    · rw [found]
      dsimp only
      rw [(find?_faulty_eq_none_iff _).mpr probabilities]
      exact if_pos excess

theorem addOffer_eq_error_iff (before : Model S A R) (state : S) (offer : A × R)
    (fault : TableError S A R) :
    addOffer distributions before state offer.1 offer.2 = .error fault ↔
      Fault distributions state offer.1 fault := by
  rw [addOffer, ← checkedDistribution_eq_error_iff]
  cases checkedDistribution distributions state offer.1 with
  | error other => simp [Except.map]
  | ok entries => simp [Except.map]

/-- An action that is offered is faulty or has a balanced distribution. -/
theorem forall_not_fault_iff (state : S) (action : A) :
    (∀ reason, ¬Fault distributions state action reason) ↔ HasBalanced distributions action := by
  have okIff := checkedDistribution_eq_ok_iff distributions state action
  simp only [← checkedDistribution_eq_error_iff]
  cases checked : checkedDistribution distributions state action with
  | error reason =>
      rw [checked] at okIff
      refine iff_of_false (fun noFault => noFault reason rfl) ?_
      rintro ⟨distribution, found, balanced⟩
      cases (okIff _).mpr ⟨distribution, found, balanced, rfl⟩
  | ok entries =>
      obtain ⟨distribution, found, balanced, -⟩ := (okIff entries).mp checked
      exact iff_of_true (fun _ failed => by cases failed) ⟨distribution, found, balanced⟩

variable [TransOrd A]

/-- The offers of a state are refused for the first of them that is faulty. -/
theorem foldlM_addOffer_eq_error_iff (before : Model S A R) (entry : S × TreeMap A R)
    (fault : TableError S A R) :
    entry.2.toList.foldlM (fun model offer =>
        addOffer distributions model entry.1 offer.1 offer.2) before = .error fault ↔
      FirstFaultAt distributions entry fault := by
  rw [foldlM_eq_error_iff (fun offer reason => Fault distributions entry.1 offer.1 reason)
    fun before offer reason => addOffer_eq_error_iff before entry.1 offer reason]
  simp only [forall_not_fault_iff]
  exact exists_split_toList_iff entry.2 (fun offer => HasBalanced distributions offer.1)
    fun offer => Fault distributions entry.1 offer.1 fault

theorem forall_not_firstFaultAt_iff (entry : S × TreeMap A R) :
    (∀ reason, ¬FirstFaultAt distributions entry reason) ↔
      ∀ offer ∈ entry.2.toList, HasBalanced distributions offer.1 := by
  constructor
  · intro noFault
    cases folded : entry.2.toList.foldlM (fun model offer =>
        addOffer distributions model entry.1 offer.1 offer.2) empty with
    | error reason =>
        exact (noFault reason ((foldlM_addOffer_eq_error_iff empty entry reason).mp folded)).elim
    | ok after =>
        exact ((foldlM_eq_ok_iff (fun before offer later =>
          addOffer_eq_ok_iff distributions entry.1 offer before later) _ _ _).mp folded).1
  · rintro balanced reason ⟨offer, member, isFault, -⟩
    exact (forall_not_fault_iff entry.1 offer.1).mpr (balanced offer member) reason isFault

/-- Tables are refused for the first fault in the order of their keys. -/
theorem ofTables_eq_error_iff (costs : CostTable S A R) (fault : TableError S A R) :
    ofTables costs distributions = .error fault ↔ FirstFault costs distributions fault := by
  have errorIff : ofTables costs distributions = .error fault ↔ _ :=
    foldlM_eq_error_iff (FirstFaultAt distributions)
      (fun before entry reason => foldlM_addOffer_eq_error_iff before entry reason)
      costs.toList (costs.keys.foldl addState empty) fault
  rw [errorIff]
  simp only [forall_not_firstFaultAt_iff]
  exact exists_split_toList_iff costs
    (fun entry => ∀ offer ∈ entry.2.toList, HasBalanced distributions offer.1)
    fun entry => FirstFaultAt distributions entry fault

end Faults

end Model

end MarkovDecision
