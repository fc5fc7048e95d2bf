import Mathlib.Data.List.Basic
import MarkovDecision.Model.Tables
import MarkovDecision.Proofs.Folds
import MarkovDecision.Proofs.Model.Construction

/-!
# Models from tables

Two tables describe a model where every action that a state offers has a balanced distribution.
The model is then a construction: the states with costs are mentioned first, and each offer adds
the transitions of its distribution.  It holds what the tables say and nothing else, since no two
of these transitions share source, action and target.
-/

namespace MarkovDecision

open Std (TreeMap TransOrd OrientedCmp TransCmp)

/-- A list that is gathered over a table comes from the entry of a key, if the others give
nothing. -/
theorem flatMap_toList_of_key {K V E : Type} [Ord K] [TransOrd K] (table : TreeMap K V) (key : K)
    (found : V → List E) {items : K × V → List E}
    (atKey : ∀ entry ∈ table.toList, compare entry.1 key = .eq → items entry = found entry.2)
    (elsewhere : ∀ entry ∈ table.toList, compare entry.1 key ≠ .eq → items entry = []) :
    table.toList.flatMap items = table[key]?.elim [] found := by
  have lookup {value : V} : table[key]? = some value ↔
      ∃ other, compare key other = .eq ∧ (other, value) ∈ table.toList :=
    TreeMap.getElem?_eq_some_iff_exists_compare_eq_eq_and_mem_toList
  cases valueEq : table[key]? with
  | none =>
      refine List.flatMap_eq_nil_iff.mpr fun entry member => elsewhere entry member fun same => ?_
      rw [lookup.mpr ⟨entry.1, OrientedCmp.eq_symm same, member⟩] at valueEq
      cases valueEq
  | some value =>
      obtain ⟨stored, same, member⟩ := lookup.mp valueEq
      have distinct := TreeMap.distinct_keys_toList (t := table)
      obtain ⟨before, after, split⟩ := List.append_of_mem member
      rw [split] at atKey elsewhere distinct
      rw [split]
      obtain ⟨-, distinctAfter, apartBefore⟩ := List.pairwise_append.mp distinct
      have noneBefore : before.flatMap items = [] := by
        refine List.flatMap_eq_nil_iff.mpr fun entry earlier => ?_
        refine elsewhere entry (by simp [earlier]) fun sameKey => ?_
        exact apartBefore entry earlier (stored, value) (by simp) (TransCmp.eq_trans sameKey same)
      have noneAfter : after.flatMap items = [] := by
        refine List.flatMap_eq_nil_iff.mpr fun entry later => ?_
        refine elsewhere entry (by simp [later]) fun sameKey => ?_
        exact (List.pairwise_cons.mp distinctAfter).1 entry later
          (OrientedCmp.eq_symm (TransCmp.eq_trans sameKey same))
      rw [List.flatMap_append, List.flatMap_cons, noneBefore, noneAfter,
        atKey (stored, value) (by simp) (OrientedCmp.eq_symm same)]
      simp

variable {S A R : Type} [Ord S] [Ord A] [Number R]

/-- The probabilities of a distribution are such, and sum to one within the tolerance. -/
structure Balanced (distribution : Distribution S R) : Prop where
  probabilities : ∀ entry ∈ distribution.toList, Model.isProbability entry.2 = true
  total : ¬Model.sumTolerance < Number.magnitude (distribution.values.foldl (· + ·) 0 - 1)

namespace Model

/-- The calls that add the transitions of an action that a state offers. -/
def offerCalls (distributions : DistributionTable S A R) (state : S) (offer : A × R) :
    List (Call S A R) :=
  (distributions.getD offer.1 ∅).toList.map fun entry =>
    .transition state offer.1 entry.1 entry.2 offer.2

/-- The calls that build the model of two tables. -/
def tableCalls (costs : CostTable S A R) (distributions : DistributionTable S A R) :
    List (Call S A R) :=
  costs.keys.map .state ++
    costs.toList.flatMap fun entry => entry.2.toList.flatMap (offerCalls distributions entry.1)

/-- An action has a distribution that is balanced. -/
def HasBalanced (distributions : DistributionTable S A R) (action : A) : Prop :=
  ∃ distribution, distributions[action]? = some distribution ∧ Balanced distribution

/-- Every action that a state offers has a balanced distribution. -/
def Describes (costs : CostTable S A R) (distributions : DistributionTable S A R) : Prop :=
  ∀ entry ∈ costs.toList, ∀ offer ∈ entry.2.toList, HasBalanced distributions offer.1

section Accepting

theorem checkedDistribution_eq_ok_iff (distributions : DistributionTable S A R) (state : S)
    (action : A) (entries : List (S × R)) :
    checkedDistribution distributions state action = .ok entries ↔
      ∃ distribution, distributions[action]? = some distribution ∧ Balanced distribution ∧
        entries = distribution.toList := by
  unfold checkedDistribution
  cases distributions[action]? with
  | none => simp
  | some distribution =>
      dsimp only
      cases faulty : distribution.toList.find? fun entry => !isProbability entry.2 with
      | some entry =>
          have isFaulty := List.find?_some faulty
          have unbalanced : ¬Balanced distribution := fun balanced => by
            simp [balanced.probabilities entry (List.mem_of_find?_eq_some faulty)] at isFaulty
          simp [unbalanced]
      | none =>
          have probabilities : ∀ entry ∈ distribution.toList, isProbability entry.2 = true := by
            intro entry member
            simpa using List.find?_eq_none.mp faulty entry member
          by_cases excess :
              (sumTolerance : R) < Number.magnitude (distribution.values.foldl (· + ·) 0 - 1)
          · have unbalanced : ¬Balanced distribution := fun balanced => balanced.total excess
            simp [excess, unbalanced]
          · have balanced : Balanced distribution := ⟨probabilities, excess⟩
            simp [excess, balanced, eq_comm]

variable [TransOrd A]

theorem addOffer_eq_ok_iff (distributions : DistributionTable S A R) (state : S) (offer : A × R)
    (before after : Model S A R) :
    addOffer distributions before state offer.1 offer.2 = .ok after ↔
      HasBalanced distributions offer.1 ∧
        after = (offerCalls distributions state offer).foldl Call.applyTo before := by
  have checked := checkedDistribution_eq_ok_iff distributions state offer.1
  rw [addOffer, offerCalls, List.foldl_map]
  cases result : checkedDistribution distributions state offer.1 with
  | error error =>
      rw [result] at checked
      constructor
      · intro failed
        cases failed
      · rintro ⟨⟨distribution, found, balanced⟩, -⟩
        cases (checked _).mpr ⟨distribution, found, balanced, rfl⟩
  | ok entries =>
      obtain ⟨distribution, found, balanced, rfl⟩ := (checked entries).mp result
      have getEq : distributions.getD offer.1 ∅ = distribution := by
        rw [TreeMap.getD_eq_getD_getElem?, found, Option.getD_some]
      rw [getEq]
      constructor
      · intro added
        cases added
        exact ⟨⟨distribution, found, balanced⟩, rfl⟩
      · rintro ⟨-, rfl⟩
        rfl

/-- Tables that describe a model are accepted, no others are, and the model is what their calls
build. -/
theorem ofTables_eq_ok_iff (costs : CostTable S A R) (distributions : DistributionTable S A R)
    (model : Model S A R) :
    ofTables costs distributions = .ok model ↔
      Describes costs distributions ∧ model = construct (tableCalls costs distributions) := by
  have states : (costs.keys.map Call.state).foldl Call.applyTo (empty : Model S A R) =
      costs.keys.foldl addState empty := List.foldl_map
  rw [ofTables, construct, tableCalls, List.foldl_append, states, List.foldl_flatMap]
  exact foldlM_eq_ok_iff
    (fun before entry after => by
      rw [List.foldl_flatMap]
      exact foldlM_eq_ok_iff
        (fun inner offer later => addOffer_eq_ok_iff distributions entry.1 offer inner later)
        entry.2.toList before after)
    costs.toList _ model

end Accepting

variable [TransOrd S] [TransOrd A]

omit [Number R] [TransOrd S] [TransOrd A] in
private theorem shares_offerCalls_eq_nil (distributions : DistributionTable S A R) {state : S}
    {offer : A × R} {source : S} {action : A}
    (apart : ¬(compare state source = .eq ∧ compare offer.1 action = .eq)) (target : S) :
    (offerCalls distributions state offer).filterMap (Call.share? source action target) = [] := by
  rw [offerCalls, List.filterMap_map, List.filterMap_eq_nil_iff]
  intro entry _
  exact if_neg fun same => apart ⟨same.1, same.2.1⟩

omit [Number R] in
private theorem shares_offerCalls (distributions : DistributionTable S A R) {state : S}
    {offer : A × R} {source : S} {action : A} (sameState : compare state source = .eq)
    (sameAction : compare offer.1 action = .eq) (target : S) :
    (offerCalls distributions state offer).filterMap (Call.share? source action target) =
      ((distributions[action]?.bind (·[target]?)).map fun probability =>
        (probability, offer.2)).toList := by
  rw [offerCalls, List.filterMap_map, List.filterMap_eq_flatMap_toList,
    flatMap_toList_of_key (distributions.getD offer.1 ∅) target
      fun probability => [(probability, offer.2)],
    TreeMap.getD_eq_getD_getElem?, TreeMap.getElem?_congr sameAction]
  · cases distributions[action]? with
    | none => rfl
    | some distribution =>
        rw [Option.getD_some, Option.bind_some]
        cases distribution[target]? <;> rfl
  · intro entry _ sameTarget
    simp [Call.share?, sameState, sameAction, sameTarget]
  · intro entry _ otherTarget
    simp [Call.share?, otherTarget]

omit [Number R] in
/-- Of the calls that two tables make at most one adds to the edge of a triple: the one for the
entry that the tables have for it. -/
theorem shares_tableCalls (costs : CostTable S A R) (distributions : DistributionTable S A R)
    (source : S) (action : A) (target : S) :
    (tableCalls costs distributions).filterMap (Call.share? source action target) =
      ((costs[source]?.bind (·[action]?)).bind fun cost =>
        (distributions[action]?.bind (·[target]?)).map fun probability =>
          (probability, cost)).toList := by
  let share (cost : R) : List (R × R) :=
    ((distributions[action]?.bind (·[target]?)).map fun probability => (probability, cost)).toList
  have noShare : (costs.keys.map Call.state).filterMap
      (Call.share? source action target : Call S A R → Option (R × R)) = [] := by
    simp [Call.share?]
  rw [tableCalls, List.filterMap_append, noShare, List.nil_append, List.filterMap_flatMap,
    flatMap_toList_of_key costs source fun offers => offers[action]?.elim [] share]
  · cases costs[source]? with
    | none => rfl
    | some offers =>
        rw [Option.bind_some, Option.elim_some]
        cases offers[action]? <;> rfl
  · intro entry _ sameState
    rw [List.filterMap_flatMap]
    apply flatMap_toList_of_key
    · intro offer _ sameAction
      exact shares_offerCalls distributions sameState sameAction target
    · intro offer _ otherAction
      exact shares_offerCalls_eq_nil distributions (fun same => otherAction same.2) target
  · intro entry _ otherState
    rw [List.filterMap_flatMap, List.flatMap_eq_nil_iff]
    intro offer _
    exact shares_offerCalls_eq_nil distributions (fun same => otherState same.1) target

theorem edge?_construct_tableCalls (costs : CostTable S A R)
    (distributions : DistributionTable S A R) (source : S) (action : A) (target : S) :
    (construct (tableCalls costs distributions)).edge? source action target =
      (costs[source]?.bind (·[action]?)).bind fun cost =>
        (distributions[action]?.bind (·[target]?)).map fun probability => (probability, cost) := by
  rw [edge?_construct, shares_tableCalls]
  generalize (costs[source]?.bind (·[action]?)).bind _ = edge?
  cases edge? <;> rfl

section Offers

variable {costs : CostTable S A R} {distributions : DistributionTable S A R} {state : S}
  {action : A}

/-- A state offers an action with a distribution. -/
def Offers (costs : CostTable S A R) (distributions : DistributionTable S A R) (state : S)
    (action : A) (distribution : Distribution S R) : Prop :=
  ∃ offers cost, costs[state]? = some offers ∧ offers[action]? = some cost ∧
    distributions[action]? = some distribution

theorem Describes.balanced (describes : Describes costs distributions)
    {distribution : Distribution S R}
    (offered : Offers costs distributions state action distribution) : Balanced distribution := by
  obtain ⟨offers, cost, found, costEq, isDistribution⟩ := offered
  obtain ⟨label, -, member⟩ :=
    TreeMap.getElem?_eq_some_iff_exists_compare_eq_eq_and_mem_toList.mp found
  obtain ⟨other, sameAction, offerMem⟩ :=
    TreeMap.getElem?_eq_some_iff_exists_compare_eq_eq_and_mem_toList.mp costEq
  obtain ⟨stored, isStored, balanced⟩ := describes (label, offers) member (other, cost) offerMem
  rw [← TreeMap.getElem?_congr sameAction, isDistribution] at isStored
  cases isStored
  exact balanced

theorem Offers.probability? {distribution : Distribution S R}
    (offered : Offers costs distributions state action distribution) (target : S) :
    (construct (tableCalls costs distributions)).probability? state action target =
      distribution[target]? := by
  obtain ⟨offers, cost, found, costEq, isDistribution⟩ := offered
  rw [probability?_eq_edge?, edge?_construct_tableCalls, found, Option.bind_some, costEq,
    isDistribution, Option.bind_some, Option.bind_some, Option.map_map]
  cases distribution[target]? <;> rfl

/-- A distribution of the model was on offer, and its probabilities were each added to zero. -/
theorem exists_offers_of_mem {offer : A × Distribution S R}
    (member : offer ∈ ((construct (tableCalls costs distributions)).actions state).toList) :
    ∃ distribution, Offers costs distributions state offer.1 distribution ∧
      ∀ target : S, offer.2[target]? = distribution[target]?.map (0 + ·) := by
  obtain ⟨target, edge, edgeEq⟩ := (contains_actions_iff_edge? _ state offer.1).mp
    (ActionTable.contains_of_mem member)
  rw [edge?_construct_tableCalls] at edgeEq
  obtain ⟨cost, costEq, shareEq⟩ := Option.bind_eq_some_iff.mp edgeEq
  obtain ⟨offers, offersEq, actionEq⟩ := Option.bind_eq_some_iff.mp costEq
  obtain ⟨probability, probabilityEq, -⟩ := Option.map_eq_some_iff.mp shareEq
  obtain ⟨distribution, isDistribution, -⟩ := Option.bind_eq_some_iff.mp probabilityEq
  have offered : Offers costs distributions state offer.1 distribution :=
    ⟨offers, cost, offersEq, actionEq, isDistribution⟩
  refine ⟨distribution, offered, fun other : S => ?_⟩
  rw [(wellFormed_construct _).getElem?_distribution (ActionTable.getElem?_of_mem member),
    offered.probability?]

/-- A distribution on offer that leads anywhere is a distribution of the model. -/
theorem Offers.exists_mem {distribution : Distribution S R}
    (offered : Offers costs distributions state action distribution) {target : S}
    (leads : distribution.contains target = true) :
    ∃ offer ∈ ((construct (tableCalls costs distributions)).actions state).toList,
      ∀ target : S, offer.2[target]? = distribution[target]?.map (0 + ·) := by
  rw [TreeMap.contains_eq_isSome_getElem?] at leads
  obtain ⟨probability, probabilityEq⟩ := Option.isSome_iff_exists.mp leads
  rw [← offered.probability?, probability?_eq_edge?, Option.map_eq_some_iff] at probabilityEq
  obtain ⟨edge, edgeEq, -⟩ := probabilityEq
  obtain ⟨offer, member, -, found⟩ := ActionTable.exists_offer
    ((contains_actions_iff_edge? _ state action).mpr ⟨target, edge, edgeEq⟩)
  refine ⟨offer, member, fun other : S => ?_⟩
  rw [(wellFormed_construct _).getElem?_distribution found, offered.probability?]

end Offers

end Model

end MarkovDecision
