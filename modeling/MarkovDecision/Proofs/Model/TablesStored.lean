import MarkovDecision.Proofs.Model.Account
import MarkovDecision.Proofs.Model.TableFaults
import MarkovDecision.Proofs.Random.Success

/-!
# What a model holds of its tables

Tables in which every action on offer has a balanced distribution are accepted, and the model holds
what they say: its states are those with costs and those that a distribution on offer leads to, and
every action on offer has its distribution, with its cost as the weight of each transition.  The
only trace of the construction is that a negative zero has lost its sign.
-/

namespace MarkovDecision

open Std (TreeMap TransOrd)

/-- Numbers that are not negative, to which zero can be added.  A negative zero loses its sign by
this, and a sum of such numbers is the same if it is started at the negative zero. -/
class LawfulZero (R : Type) [Number R] : Prop extends LawfulSum R where
  same_zero_add : ∀ {value : R}, 0 ≤ value → Number.same (0 + value) value = true
  neg_zero_add : ∀ {value : R}, 0 ≤ value → -0 + (0 + value) = 0 + value

instance : LawfulZero Rat where
  same_zero_add {value} _ := by simp [Number.same]
  neg_zero_add _ := by rw [neg_zero, zero_add]

variable {S A R : Type} [Ord S] [Ord A] [Number R]

/-- The probabilities of a balanced distribution still have the same sum when zero has been added to
each of them, and the sum is started at the negative zero. -/
theorem Balanced.sum_eq [LawfulZero R] {distribution : Distribution S R}
    (balanced : Balanced distribution) :
    Number.sum (distribution.values.map (0 + ·)) = distribution.values.foldl (· + ·) 0 := by
  have nonneg := balanced.nonneg
  obtain ⟨first, rest, listed⟩ := balanced.exists_values_eq_cons
  rw [listed] at nonneg ⊢
  obtain ⟨firstNonneg, restNonneg⟩ := List.forall_mem_cons.mp nonneg
  rw [Number.sum, List.map_cons, List.foldl_cons, LawfulZero.neg_zero_add firstNonneg,
    foldl_map_zero_add firstNonneg restNonneg, List.foldl_cons]

namespace Model

/-- A model holds what two tables say, and nothing else. -/
structure Stores (costs : CostTable S A R) (distributions : DistributionTable S A R)
    (model : Model S A R) : Prop where
  contains_iff : ∀ state, model.contains state = true ↔
    costs.contains state = true ∨ ∃ source action distribution,
      Offers costs distributions source action distribution ∧ distribution.contains state = true
  offers_iff : ∀ state action, (model.actions state).contains action = true ↔
    (costs[state]?.bind (·[action]?)).isSome = true
  entries : ∀ state action distribution, Offers costs distributions state action distribution →
    ∃ stored, (model.actions state)[action]? = some stored ∧
      ∀ target : S, stored[target]? = distribution[target]?.map (0 + ·)
  /-- Adding zero to a probability on offer makes no difference but for the sign of a zero. -/
  unchanged : ∀ state action distribution, Offers costs distributions state action distribution →
    ∀ entry ∈ distribution.toList, Number.same (0 + entry.2) entry.2 = true
  weights : ∀ state action distribution, Offers costs distributions state action distribution →
    ∃ cost, costs[state]?.bind (·[action]?) = some cost ∧
      model.weight? state action none = some cost ∧
      ∀ target, model.weight? state action (some target) = distribution[target]?.map fun _ => cost
  unlisted : ∀ state, ¬costs.contains state = true → (model.actions state).toList = []
  balanced : model.firstUnbalanced? = none

variable [TransOrd S] [TransOrd A] {costs : CostTable S A R}
  {distributions : DistributionTable S A R}

section Stored

omit [TransOrd S] [Number R] in
theorem mem_mentioned_offerCalls_iff (state : S) (offer : A × R) (label : S) :
    label ∈ (offerCalls distributions state offer).flatMap Call.mentioned ↔
      ∃ distribution, distributions[offer.1]? = some distribution ∧
        ∃ entry ∈ distribution.toList, label = state ∨ label = entry.1 := by
  rw [offerCalls, List.flatMap_map, TreeMap.getD_eq_getD_getElem?]
  cases distributions[offer.1]? with
  | none => simp [show (∅ : Distribution S R).toList = [] from rfl]
  | some distribution => simp [Call.mentioned]

omit [TransOrd S] [Number R] in
theorem mem_mentioned_tableCalls_iff (label : S) :
    label ∈ (tableCalls costs distributions).flatMap Call.mentioned ↔
      (∃ entry ∈ costs.toList, label = entry.1) ∨
        ∃ entry ∈ costs.toList, ∃ offer ∈ entry.2.toList,
          ∃ distribution, distributions[offer.1]? = some distribution ∧
            ∃ item ∈ distribution.toList, label = entry.1 ∨ label = item.1 := by
  rw [tableCalls, List.flatMap_append, List.mem_append, List.flatMap_assoc, List.mem_flatMap]
  refine or_congr ?_ ?_
  · simp [Call.mentioned, ← TreeMap.map_fst_toList_eq_keys]
  · simp only [List.flatMap_assoc, List.mem_flatMap (l := TreeMap.toList _),
      mem_mentioned_offerCalls_iff]

/-- The states of the model that tables describe are those with costs and those that a distribution
on offer leads to. -/
theorem contains_tableCalls_iff (state : S) :
    (construct (tableCalls costs distributions)).contains state = true ↔
      costs.contains state = true ∨ ∃ source action distribution,
        Offers costs distributions source action distribution ∧
          distribution.contains state = true := by
  simp only [contains_construct_iff, mem_mentioned_tableCalls_iff, contains_iff_exists_mem_toList]
  constructor
  · rintro ⟨label, ⟨entry, member, rfl⟩ | ⟨entry, member, offer, offerMem, distribution, found, item,
      itemMem, mentioned⟩, same⟩
    · exact Or.inl ⟨entry, member, same⟩
    · rcases mentioned with rfl | rfl
      · exact Or.inl ⟨entry, member, same⟩
      · exact Or.inr ⟨entry.1, offer.1, distribution, ⟨entry.2, offer.2,
          getElem?_of_mem_toList member, getElem?_of_mem_toList offerMem, found⟩, item, itemMem,
          same⟩
  · rintro (⟨entry, member, same⟩ | ⟨source, action, distribution,
      ⟨offers, cost, found, costEq, isDistribution⟩, item, itemMem, same⟩)
    · exact ⟨entry.1, Or.inl ⟨entry, member, rfl⟩, same⟩
    · obtain ⟨label, -, member⟩ :=
        TreeMap.getElem?_eq_some_iff_exists_compare_eq_eq_and_mem_toList.mp found
      obtain ⟨other, sameAction, offerMem⟩ :=
        TreeMap.getElem?_eq_some_iff_exists_compare_eq_eq_and_mem_toList.mp costEq
      rw [TreeMap.getElem?_congr sameAction] at isDistribution
      exact ⟨item.1, Or.inr ⟨(label, offers), member, (other, cost), offerMem, distribution,
        isDistribution, item, itemMem, Or.inr rfl⟩, same⟩

theorem Offers.edge? {state : S} {action : A} {distribution : Distribution S R} {cost : R}
    (offered : Offers costs distributions state action distribution)
    (costEq : costs[state]?.bind (·[action]?) = some cost) (target : S) :
    (construct (tableCalls costs distributions)).edge? state action target =
      distribution[target]?.map fun probability => (probability, cost) := by
  obtain ⟨-, -, -, -, isDistribution⟩ := offered
  rw [edge?_construct_tableCalls, costEq, isDistribution, Option.bind_some, Option.bind_some]

theorem Describes.exists_offers (describes : Describes costs distributions) {state : S} {action : A}
    {cost : R} (costEq : costs[state]?.bind (·[action]?) = some cost) :
    ∃ distribution, Offers costs distributions state action distribution := by
  obtain ⟨offers, found, offered⟩ := Option.bind_eq_some_iff.mp costEq
  obtain ⟨label, -, member⟩ :=
    TreeMap.getElem?_eq_some_iff_exists_compare_eq_eq_and_mem_toList.mp found
  obtain ⟨other, sameAction, offerMem⟩ :=
    TreeMap.getElem?_eq_some_iff_exists_compare_eq_eq_and_mem_toList.mp offered
  obtain ⟨distribution, isDistribution, -⟩ := describes (label, offers) member (other, cost) offerMem
  rw [← TreeMap.getElem?_congr sameAction] at isDistribution
  exact ⟨distribution, offers, cost, found, offered, isDistribution⟩

section Summed

variable [LawfulSum R] (describes : Describes costs distributions) {state : S} {action : A}
include describes

theorem Describes.exists_entry {distribution : Distribution S R}
    (offered : Offers costs distributions state action distribution) :
    ∃ entry, entry ∈ distribution.toList := by
  obtain ⟨first, rest, listed⟩ := (describes.balanced offered).exists_values_eq_cons
  rw [values_eq_map] at listed
  obtain ⟨entry, member, -⟩ := List.mem_map.mp (listed ▸ List.mem_cons_self)
  exact ⟨entry, member⟩

theorem Describes.contains_actions_iff (state : S) (action : A) :
    ((construct (tableCalls costs distributions)).actions state).contains action = true ↔
      (costs[state]?.bind (·[action]?)).isSome = true := by
  rw [contains_actions_iff_edge?]
  constructor
  · rintro ⟨target, edge, edgeEq⟩
    rw [edge?_construct_tableCalls] at edgeEq
    obtain ⟨cost, costEq, -⟩ := Option.bind_eq_some_iff.mp edgeEq
    rw [costEq]
    rfl
  · intro hasCost
    obtain ⟨cost, costEq⟩ := Option.isSome_iff_exists.mp hasCost
    obtain ⟨distribution, offered⟩ := describes.exists_offers costEq
    obtain ⟨entry, member⟩ := describes.exists_entry offered
    refine ⟨entry.1, (entry.2, cost), ?_⟩
    rw [offered.edge? costEq, getElem?_of_mem_toList member, Option.map_some]

/-- An action on offer has its distribution in the model, with zero added to each probability. -/
theorem Describes.exists_stored {distribution : Distribution S R}
    (offered : Offers costs distributions state action distribution) :
    ∃ stored, ((construct (tableCalls costs distributions)).actions state)[action]? = some stored ∧
      ∀ target : S, stored[target]? = distribution[target]?.map (0 + ·) := by
  obtain ⟨offers, cost, found, costEq, isDistribution⟩ := id offered
  have isOffered : ((construct (tableCalls costs distributions)).actions state).contains action =
      true := by
    rw [describes.contains_actions_iff, found, Option.bind_some, costEq]
    rfl
  rw [TreeMap.contains_eq_isSome_getElem?] at isOffered
  obtain ⟨stored, storedEq⟩ := Option.isSome_iff_exists.mp isOffered
  refine ⟨stored, storedEq, fun target => ?_⟩
  rw [(wellFormed_construct _).getElem?_distribution storedEq, offered.probability?]

theorem Describes.weight?_eq {distribution : Distribution S R}
    (offered : Offers costs distributions state action distribution) {cost : R}
    (costEq : costs[state]?.bind (·[action]?) = some cost) :
    (construct (tableCalls costs distributions)).weight? state action none = some cost ∧
      ∀ target, (construct (tableCalls costs distributions)).weight? state action (some target) =
        distribution[target]?.map fun _ => cost := by
  have weightEq (target : S) :
      (construct (tableCalls costs distributions)).weight? state action (some target) =
        distribution[target]?.map fun _ => cost := by
    rw [weight?_eq_edge?, offered.edge? costEq, Option.map_map]
    rfl
  refine ⟨?_, weightEq⟩
  obtain ⟨entry, member⟩ := describes.exists_entry offered
  have ofEntry : ((construct (tableCalls costs distributions)).weight? state action
      (some entry.1)).isSome = true := by
    rw [weightEq, getElem?_of_mem_toList member]
    rfl
  obtain ⟨weight, found⟩ := Option.isSome_iff_exists.mp (isSome_weight?_none ofEntry)
  obtain ⟨target, ofTarget⟩ := (wellFormed_construct _).weight?_none_eq_some found
  rw [weightEq] at ofTarget
  obtain ⟨-, -, rfl⟩ := Option.map_eq_some_iff.mp ofTarget
  exact found

end Summed

theorem Describes.firstUnbalanced?_eq_none [LawfulZero R]
    (describes : Describes costs distributions) :
    (construct (tableCalls costs distributions)).firstUnbalanced? = none := by
  unfold firstUnbalanced?
  rw [List.findSome?_eq_none_iff]
  intro state _
  rw [List.findSome?_eq_none_iff]
  intro offer member
  obtain ⟨distribution, offered, entryEq⟩ := exists_offers_of_mem member
  have balanced := describes.balanced offered
  dsimp only
  rw [values_eq_map_values entryEq, balanced.sum_eq, if_neg balanced.total]

/-- The model of accepted tables holds what they say. -/
theorem Describes.stores [LawfulZero R] (describes : Describes costs distributions) :
    Stores costs distributions (construct (tableCalls costs distributions)) where
  contains_iff := contains_tableCalls_iff
  offers_iff := describes.contains_actions_iff
  entries _ _ _ := describes.exists_stored
  unchanged state action distribution offered entry member := by
    apply LawfulZero.same_zero_add
    apply (describes.balanced offered).nonneg
    rw [values_eq_map]
    exact List.mem_map_of_mem member
  weights state action distribution offered := by
    obtain ⟨offers, cost, found, offerEq, -⟩ := id offered
    have costEq : costs[state]?.bind (·[action]?) = some cost := by
      rw [found, Option.bind_some, offerEq]
    exact ⟨cost, costEq, describes.weight?_eq offered costEq⟩
  unlisted state unlisted := by
    rw [List.eq_nil_iff_forall_not_mem]
    intro offer member
    obtain ⟨-, ⟨offers, -, found, -⟩, -⟩ := exists_offers_of_mem member
    rw [TreeMap.contains_eq_isSome_getElem?, found] at unlisted
    exact unlisted rfl
  balanced := describes.firstUnbalanced?_eq_none

/-- Two tables are accepted if every action on offer has a balanced distribution, and otherwise
refused for the first fault.  A model that is built from them holds what they say. -/
theorem ofTables_accepts_and_stores [LawfulZero R] (costs : CostTable S A R)
    (distributions : DistributionTable S A R) :
    ((∃ model, ofTables costs distributions = .ok model) ↔ Describes costs distributions) ∧
    (∀ fault, ofTables costs distributions = .error fault ↔
      FirstFault costs distributions fault) ∧
    ∀ model, ofTables costs distributions = .ok model → Stores costs distributions model := by
  refine ⟨⟨?_, ?_⟩, ofTables_eq_error_iff costs, ?_⟩
  · rintro ⟨model, built⟩
    exact ((ofTables_eq_ok_iff costs distributions model).mp built).1
  · intro describes
    exact ⟨_, (ofTables_eq_ok_iff costs distributions _).mpr ⟨describes, rfl⟩⟩
  · intro model built
    obtain ⟨describes, rfl⟩ := (ofTables_eq_ok_iff costs distributions model).mp built
    exact describes.stores

end Stored

/-- States 0 and 2 offer one action at different costs. -/
def twoCosts : CostTable Nat Nat Rat :=
  TreeMap.ofList [(0, TreeMap.ofList [(0, (-1 : Rat))]), (2, TreeMap.ofList [(0, (-3 : Rat))])]

/-- State 2 offers another action instead. -/
def otherAction : CostTable Nat Nat Rat :=
  TreeMap.ofList [(0, TreeMap.ofList [(0, (-1 : Rat))]), (2, TreeMap.ofList [(7, (-3 : Rat))])]

/-- One of two actions has a sum of five. -/
def oneBalanced : DistributionTable Nat Nat Rat :=
  TreeMap.ofList [(0, TreeMap.ofList [(1, (1 / 2 : Rat)), (2, (1 / 2 : Rat))]),
    (7, TreeMap.ofList [(0, (2 : Rat)), (1, (3 : Rat))])]

/-- Where nobody offers the action with a sum of five, nobody asks for its distribution; the costs
of the other action are told apart.  Where state 2 offers it, this is the first fault. -/
theorem ofTables_accepts_and_stores_oneBalanced :
    (∃ model, ofTables twoCosts oneBalanced = .ok model ∧ Stores twoCosts oneBalanced model ∧
      model.weight? 0 0 none = some (-1) ∧ model.weight? 2 0 (some 1) = some (-3)) ∧
    FirstFault otherAction oneBalanced (.unbalancedDistribution 2 7 5) := by
  obtain ⟨model, built⟩ := exists_eq_ok
    (show (ofTables twoCosts oneBalanced).isOk = true by decide +kernel)
  have weights : ∀ model ∈ (ofTables twoCosts oneBalanced).toOption,
      model.weight? 0 0 none = some (-1) ∧ model.weight? 2 0 (some 1) = some (-3) := by
    decide +kernel
  obtain ⟨-, -, stores⟩ := ofTables_accepts_and_stores twoCosts oneBalanced
  obtain ⟨-, errorIff, -⟩ := ofTables_accepts_and_stores otherAction oneBalanced
  have reported : (match ofTables otherAction oneBalanced with
      | .error (.unbalancedDistribution state action sum) =>
          decide (state = 2 ∧ action = 7 ∧ sum = 5)
      | _ => false) = true := by
    decide +kernel
  have refused : ofTables otherAction oneBalanced = .error (.unbalancedDistribution 2 7 5) := by
    split at reported
    · rename_i refused
      obtain ⟨rfl, rfl, rfl⟩ := of_decide_eq_true reported
      exact refused
    · cases reported
  exact ⟨⟨model, built, stores model built, weights model (mem_toOption_of_eq_ok built)⟩,
    (errorIff _).mp refused⟩

end Model

end MarkovDecision
