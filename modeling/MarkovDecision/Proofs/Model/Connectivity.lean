import MarkovDecision.Model.Connectivity
import MarkovDecision.Proofs.Closure
import MarkovDecision.Proofs.Model.Actions
import MarkovDecision.Proofs.Folds

/-!
# Which states come to the targets

The search from a state finds exactly the states that walks from it end in, and the backward search
from the targets finds exactly the states that are connected to one of them.
-/

namespace MarkovDecision

open Std

namespace Model

variable {S A R : Type} [Ord S] [TransOrd S] [LawfulEqOrd S] [Ord A]

theorem WellFormed.mem_states_iff {model : Model S A R} (wellFormed : model.WellFormed)
    (state : S) : state ∈ model.states.toList ↔ model.contains state = true := by
  constructor
  · exact wellFormed.contains_of_mem
  · intro known
    obtain ⟨label, member, same⟩ := wellFormed.listed state known
    rw [← LawfulEqOrd.eq_of_compare same]
    exact member

/-- What holds of the transitions of the listed states holds of all. -/
theorem WellFormed.forall_outgoing {model : Model S A R} (wellFormed : model.WellFormed)
    {holds : S → Transition S A R → Prop}
    (listed : ∀ state ∈ model.states.toList, ∀ transition ∈ model.outgoing state,
      holds state transition) :
    ∀ state, ∀ transition ∈ model.outgoing state, holds state transition :=
  fun state transition leaves => listed state
    ((wellFormed.mem_states_iff state).mpr (contains_of_mem_outgoing leaves)) transition leaves

theorem WellFormed.forall_offers [Number R] {model : Model S A R} (wellFormed : model.WellFormed)
    {holds : S → A × Distribution S R → Prop}
    (listed : ∀ state ∈ model.states.toList, ∀ offer ∈ (model.actions state).toList,
      holds state offer) :
    ∀ state, ∀ offer ∈ (model.actions state).toList, holds state offer :=
  fun state offer offered => listed state
    ((wellFormed.mem_states_iff state).mpr (contains_of_offer offered)) offer offered

omit [TransOrd S] in
theorem WellFormed.nodup_states {model : Model S A R} (wellFormed : model.WellFormed) :
    model.states.toList.Nodup := by
  refine wellFormed.distinct.imp ?_
  rintro first second different rfl
  exact different ReflCmp.compare_self

theorem WellFormed.mem_transitionsByState_iff {model : Model S A R}
    (wellFormed : model.WellFormed) (source : S) (transition : Transition S A R) :
    (source, transition) ∈ model.transitionsByState ↔ transition ∈ model.outgoing source := by
  simp only [transitionsByState, List.mem_flatMap, List.mem_map, Prod.mk.injEq]
  constructor
  · rintro ⟨state, -, other, leaves, rfl, rfl⟩
    exact leaves
  · intro leaves
    exact ⟨source, (wellFormed.mem_states_iff source).mpr (contains_of_mem_outgoing leaves),
      transition, leaves, rfl, rfl⟩

omit [TransOrd S] [LawfulEqOrd S] [Ord A] in
theorem mem_successors_iff (model : Model S A R) (state next : S) :
    next ∈ model.successors state ↔
      ∃ transition ∈ model.outgoing state, transition.target = next := by
  simp [successors]

theorem WellFormed.entry_mem_successors [TransOrd A] [Number R] {model : Model S A R}
    (wellFormed : model.WellFormed) {state : S} {offer : A × Distribution S R}
    (offered : offer ∈ (model.actions state).toList) {entry : S × R}
    (member : entry ∈ offer.2.toList) : entry.1 ∈ model.successors state := by
  obtain ⟨transition, leaves, joins⟩ := wellFormed.exists_transition_of_entry offered member
  exact (mem_successors_iff model state entry.1).mpr
    ⟨transition, leaves, LawfulEqOrd.eq_of_compare joins.2⟩

theorem WellFormed.mem_successors_iff_probability? [TransOrd A] [Number R] {model : Model S A R}
    (wellFormed : model.WellFormed) (state next : S) :
    next ∈ model.successors state ↔
      ∃ action, ((model.actions state).probability? action next).isSome = true := by
  simp only [mem_successors_iff, wellFormed.probability?_actions, Option.isSome_map,
    Model.probability?, Option.isSome_iff_exists]
  constructor
  · rintro ⟨transition, leaves, rfl⟩
    exact ⟨transition.action, transition, wellFormed.transition?_of_mem leaves
      ⟨ReflCmp.compare_self, ReflCmp.compare_self⟩⟩
  · rintro ⟨action, transition, found⟩
    obtain ⟨leaves, joins⟩ := transition?_eq_some found
    exact ⟨transition, leaves, LawfulEqOrd.eq_of_compare joins.2⟩

theorem WellFormed.mem_predecessors_iff {model : Model S A R} (wellFormed : model.WellFormed)
    (source target : S) :
    source ∈ model.predecessorTable.getD target [] ↔ target ∈ model.successors source := by
  have gathered := mem_getD_foldl_gather (fun entry : S × Transition S A R => entry.2.target)
    (fun entry => entry.1) model.transitionsByState ∅ target source
  rw [TreeMap.getD_emptyc] at gathered
  refine gathered.trans ?_
  simp only [List.not_mem_nil, false_or, Prod.exists, mem_successors_iff,
    wellFormed.mem_transitionsByState_iff]
  constructor
  · rintro ⟨state, transition, leaves, targetEq, rfl⟩
    exact ⟨transition, leaves, targetEq⟩
  · rintro ⟨transition, leaves, targetEq⟩
    exact ⟨source, transition, leaves, targetEq, rfl⟩

theorem WellFormed.successors_mem_states {model : Model S A R} (wellFormed : model.WellFormed)
    {state next : S} (isNext : next ∈ model.successors state) : next ∈ model.states.toList := by
  obtain ⟨transition, leaves, rfl⟩ := (mem_successors_iff model state next).mp isNext
  exact (wellFormed.mem_states_iff _).mpr (wellFormed.closed state transition leaves)

/-- A state comes to the targets exactly if a walk from it ends in a target that is a state. -/
theorem WellFormed.mem_comingTo_iff {model : Model S A R} (wellFormed : model.WellFormed)
    (targets : LabelSet S) (state : S) :
    state ∈ model.comingTo targets ↔
      ∃ target ∈ targets, model.contains target = true ∧ Walk model.successors state target := by
  have within : ∀ state, ∀ source ∈ model.predecessorTable.getD state [],
      source ∈ model.states.toList := by
    intro state source isSource
    obtain ⟨transition, leaves, -⟩ := (mem_successors_iff model source state).mp
      ((wellFormed.mem_predecessors_iff source state).mp isSource)
    exact (wellFormed.mem_states_iff source).mpr (contains_of_mem_outgoing leaves)
  have backward : ∀ target, Walk (fun state => model.predecessorTable.getD state []) target state ↔
      Walk model.successors state target := by
    intro target
    unfold Walk
    simp only [wellFormed.mem_predecessors_iff]
    exact Relation.reflTransGen_swap
  rw [comingTo, mem_closure_iff _ _ within (by simp [size])]
  simp only [List.mem_filter, TreeSet.mem_toList, backward, and_assoc]

omit [TransOrd S] [LawfulEqOrd S] [Ord A] in
theorem contains_of_walk [TransOrd S] {model : Model S A R} {source target : S}
    (walk : Walk model.successors source target) (known : model.contains target = true) :
    model.contains source = true := by
  rcases walk.cases_head with rfl | ⟨next, isNext, -⟩
  · exact known
  · obtain ⟨transition, leaves, -⟩ := (mem_successors_iff model source next).mp isNext
    exact contains_of_mem_outgoing leaves

theorem WellFormed.connected?_eq_some_true_iff {model : Model S A R}
    (wellFormed : model.WellFormed) (source target : S) :
    model.connected? source target = some true ↔
      model.contains target = true ∧ Walk model.successors source target := by
  have within : ∀ state, ∀ next ∈ model.successors state, next ∈ model.states.toList :=
    fun state next isNext => wellFormed.successors_mem_states isNext
  have found : (closure model.successors model.size [source]).contains target = true ↔
      Walk model.successors source target := by
    rw [← TreeSet.mem_iff_contains, mem_closure_iff _ _ within (by simp [size])]
    simp
  constructor
  · intro connected
    unfold connected? at connected
    split at connected
    · rename_i bothKnown
      exact ⟨(Bool.and_eq_true_iff.mp bothKnown).2, found.mp (Option.some.inj connected)⟩
    · cases connected
  · rintro ⟨known, walk⟩
    have bothKnown : (model.contains source && model.contains target) = true :=
      Bool.and_eq_true_iff.mpr ⟨contains_of_walk walk known, known⟩
    rw [connected?, if_pos bothKnown, found.mpr walk]

/-- The backward search from all targets agrees with a forward search from each state. -/
theorem WellFormed.mem_comingTo_iff_connected {model : Model S A R}
    (wellFormed : model.WellFormed) (targets : LabelSet S) (state : S) :
    state ∈ model.comingTo targets ↔
      ∃ target ∈ targets, model.connected? state target = some true := by
  simp only [wellFormed.mem_comingTo_iff, wellFormed.connected?_eq_some_true_iff]

end Model

end MarkovDecision
