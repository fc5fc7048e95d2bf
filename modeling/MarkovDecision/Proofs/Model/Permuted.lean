import Mathlib.Data.List.Perm.Basic
import MarkovDecision.Proofs.Model.Connectivity
import MarkovDecision.Proofs.Model.Construction
import MarkovDecision.Proofs.Renaming

/-!
# Constructions in another order

The order of the calls that build a model decides how its states are numbered and in which order
its transitions are listed.  When no two calls add to the same edge, that is all it decides:
`Model.Alike` says that two models have the same states and the same edges, and permuted calls build
such models.

A weaker relation is enough for everything that asks for probabilities alone.  `Model.SameChances`
says that two models have the same states and, in their tables of actions, the same probabilities.
The tables of actions are then the same entry by entry, and the same walks lead from state to state.
-/

namespace MarkovDecision

open Std (TreeMap TreeSet TransOrd LawfulEqOrd ReflCmp)

/-- The actions of a table with the entries of their distributions, all in order. -/
def ActionTable.entries {S A R : Type} [Ord S] [Ord A] (table : ActionTable S A R) :
    List (A × List (S × R)) :=
  table.toList.map fun offer => (offer.1, offer.2.toList)

/-- A transition without its number: its action and target, its probability and weight. -/
def Transition.content {S A R : Type} (transition : Transition S A R) : A × S × R × R :=
  (transition.action, transition.target, transition.probability, transition.weight)

namespace Call

variable {S A R : Type}

/-- The source, action and target of a call that adds a transition. -/
def triple? : Call S A R → Option (S × A × S)
  | .state _ => none
  | .transition source action target _ _ => some (source, action, target)

variable [Ord S] [Ord A] [LawfulEqOrd S] [LawfulEqOrd A]

theorem triple?_of_share? {call : Call S A R} {source : S} {action : A} {target : S} {share : R × R}
    (adds : call.share? source action target = some share) :
    call.triple? = some (source, action, target) := by
  cases call with
  | state label => cases adds
  | transition origin under reached probability weight =>
      rw [share?] at adds
      split at adds
      · rename_i same
        rw [triple?, LawfulEqOrd.eq_of_compare same.1, LawfulEqOrd.eq_of_compare same.2.1,
          LawfulEqOrd.eq_of_compare same.2.2]
      · cases adds

/-- Among calls with different triples, one at most adds to an edge. -/
theorem length_shares_le {calls : List (Call S A R)} (distinct : (calls.filterMap triple?).Nodup)
    (source : S) (action : A) (target : S) :
    (calls.filterMap (share? source action target)).length ≤ 1 := by
  induction calls with
  | nil => exact Nat.zero_le _
  | cons call calls ih =>
      rw [List.filterMap_cons]
      cases adds : call.share? source action target with
      | none =>
          have sublist : (calls.filterMap triple?).Sublist ((call :: calls).filterMap triple?) :=
            (List.sublist_cons_self call calls).filterMap triple?
          exact ih (distinct.sublist sublist)
      | some share =>
          rw [List.filterMap_cons, triple?_of_share? adds] at distinct
          have noneLater : calls.filterMap (share? source action target) = [] := by
            rw [List.filterMap_eq_nil_iff]
            intro other member
            cases otherAdds : other.share? source action target with
            | none => rfl
            | some otherShare =>
                exact ((List.nodup_cons.mp distinct).1 (List.mem_filterMap.mpr
                  ⟨other, member, triple?_of_share? otherAdds⟩)).elim
          rw [noneLater]
          exact Nat.le_refl 1

end Call

namespace Model

variable {S A R : Type} [Ord S] [Ord A] [Number R]

/-- Two models have the same states, and the same probabilities under every action. -/
structure SameChances [TransOrd S] (first second : Model S A R) : Prop where
  wellFormed : first.WellFormed
  otherWellFormed : second.WellFormed
  contains_eq : ∀ state, first.contains state = second.contains state
  probability?_eq : ∀ state action target,
    (first.actions state).probability? action target =
      (second.actions state).probability? action target

/-- Two models have the same states and the same edges. -/
structure Alike [TransOrd S] (first second : Model S A R) : Prop where
  wellFormed : first.WellFormed
  otherWellFormed : second.WellFormed
  contains_eq : ∀ state, first.contains state = second.contains state
  edge?_eq : ∀ source action target,
    first.edge? source action target = second.edge? source action target

variable [TransOrd S] [TransOrd A] {first second : Model S A R}

omit [TransOrd A] [Number R] in
theorem Alike.symm (alike : first.Alike second) : second.Alike first where
  wellFormed := alike.otherWellFormed
  otherWellFormed := alike.wellFormed
  contains_eq state := (alike.contains_eq state).symm
  edge?_eq source action target := (alike.edge?_eq source action target).symm

theorem Alike.sameChances (alike : first.Alike second) : first.SameChances second where
  wellFormed := alike.wellFormed
  otherWellFormed := alike.otherWellFormed
  contains_eq := alike.contains_eq
  probability?_eq state action target := by
    rw [alike.wellFormed.probability?_actions, alike.otherWellFormed.probability?_actions,
      probability?_eq_edge?, probability?_eq_edge?, alike.edge?_eq]

omit [TransOrd A] [Number R] in
theorem Alike.weight?_eq (alike : first.Alike second) (state : S) (action : A) (target : S) :
    first.weight? state action (some target) = second.weight? state action (some target) := by
  rw [weight?_eq_edge?, weight?_eq_edge?, alike.edge?_eq]

section Contents

variable [LawfulEqOrd S] [LawfulEqOrd A]

omit [Number R] in
theorem WellFormed.mem_contents_iff {model : Model S A R} (wellFormed : model.WellFormed)
    (state : S) (action : A) (target : S) (edge : R × R) :
    (action, target, edge) ∈ (model.outgoing state).map Transition.content ↔
      model.edge? state action target = some edge := by
  rw [List.mem_map, edge?, Option.map_eq_some_iff]
  constructor
  · rintro ⟨transition, leaves, contentEq⟩
    cases contentEq
    exact ⟨transition, wellFormed.transition?_of_mem leaves
      ⟨ReflCmp.compare_self, ReflCmp.compare_self⟩, rfl⟩
  · rintro ⟨transition, found, rfl⟩
    obtain ⟨leaves, joins⟩ := transition?_eq_some found
    refine ⟨transition, leaves, ?_⟩
    rw [Transition.content, LawfulEqOrd.eq_of_compare joins.1, LawfulEqOrd.eq_of_compare joins.2]

omit [LawfulEqOrd S] [LawfulEqOrd A] [Number R] in
theorem WellFormed.nodup_contents {model : Model S A R} (wellFormed : model.WellFormed)
    (state : S) : ((model.outgoing state).map Transition.content).Nodup := by
  rw [List.Nodup, List.pairwise_map]
  refine (wellFormed.unique state).imp ?_
  intro transition other apart sameContent
  simp only [Transition.content, Prod.mk.injEq] at sameContent
  apply apart
  rw [Transition.Joins, sameContent.1, sameContent.2.1]
  exact ⟨ReflCmp.compare_self, ReflCmp.compare_self⟩

omit [Number R] in
theorem Alike.perm_contents (alike : first.Alike second) (state : S) :
    ((first.outgoing state).map Transition.content).Perm
      ((second.outgoing state).map Transition.content) := by
  rw [List.perm_ext_iff_of_nodup (alike.wellFormed.nodup_contents state)
    (alike.otherWellFormed.nodup_contents state)]
  rintro ⟨action, target, edge⟩
  rw [alike.wellFormed.mem_contents_iff, alike.otherWellFormed.mem_contents_iff, alike.edge?_eq]

omit [Number R] in
theorem Alike.exists_transition (alike : first.Alike second) {state : S}
    {transition : Transition S A R} (leaves : transition ∈ first.outgoing state) :
    ∃ other ∈ second.outgoing state, other.content = transition.content :=
  List.mem_map.mp ((alike.perm_contents state).mem_iff.mp (List.mem_map_of_mem leaves))

end Contents

section Building

variable [LawfulEqOrd S] [LawfulEqOrd A]

/-- Permuted calls build models that are alike, when no two of them add to the same edge. -/
theorem alike_construct {calls permuted : List (Call S A R)} (isPerm : calls.Perm permuted)
    (distinct : (calls.filterMap Call.triple?).Nodup) :
    (construct calls).Alike (construct permuted) where
  wellFormed := wellFormed_construct calls
  otherWellFormed := wellFormed_construct permuted
  contains_eq state := by
    rw [Bool.eq_iff_iff, contains_construct, contains_construct]
    simp only [isPerm.mem_iff]
  edge?_eq source action target := by
    have sameShares : calls.filterMap (Call.share? source action target) =
        permuted.filterMap (Call.share? source action target) := by
      have sharesPerm := isPerm.filterMap (Call.share? source action target)
      have atMostOne := Call.length_shares_le distinct source action target
      match shares : calls.filterMap (Call.share? source action target), atMostOne with
      | [], _ =>
          rw [shares] at sharesPerm
          exact sharesPerm.nil_eq
      | [share], _ =>
          rw [shares] at sharesPerm
          exact List.singleton_perm.mp sharesPerm
    rw [edge?_construct, edge?_construct, sameShares]

end Building

section Tables

variable (same : first.SameChances second)
include same

theorem SameChances.contains_actions_eq (state : S) (action : A) :
    (first.actions state).contains action = (second.actions state).contains action := by
  have byChances (model : Model S A R) (wellFormed : model.WellFormed) :
      (model.actions state).contains action = true ↔
        ∃ target, ((model.actions state).probability? action target).isSome = true := by
    rw [contains_actions_iff_edge?]
    simp only [wellFormed.probability?_actions, probability?_eq_edge?, Option.isSome_map,
      Option.isSome_iff_exists]
  rw [Bool.eq_iff_iff, byChances first same.wellFormed, byChances second same.otherWellFormed]
  simp only [same.probability?_eq]

theorem SameChances.actions_image (state : S) :
    TableImage id (TableImage id Eq) (first.actions state) (second.actions state) := by
  intro action
  have bothOrNone := same.contains_actions_eq state action
  rw [TreeMap.contains_eq_isSome_getElem?, TreeMap.contains_eq_isSome_getElem?] at bothOrNone
  have chances := same.probability?_eq state action
  unfold ActionTable.probability? at chances
  change Option.Rel _ _ (second.actions state)[action]?
  generalize (first.actions state)[action]? = found at bothOrNone chances ⊢
  generalize (second.actions state)[action]? = otherFound at bothOrNone chances ⊢
  cases found with
  | none =>
      rw [Option.isNone_iff_eq_none.mp (Option.isSome_eq_false_iff.mp bothOrNone.symm)]
      exact .none
  | some distribution =>
      obtain ⟨other, rfl⟩ := Option.isSome_iff_exists.mp bothOrNone.symm
      exact .some (tableImage_of_forall_eq chances)

variable [LawfulEqOrd A]

theorem SameChances.map_offers [LawfulEqOrd S] {T : Type} (state : S)
    {make : A × Distribution S R → T}
    (fromEntries : ∀ action (distribution other : Distribution S R),
      distribution.toList = other.toList → make (action, distribution) = make (action, other)) :
    (first.actions state).toList.map make = (second.actions state).toList.map make := by
  symm
  apply (same.actions_image state).map_toList isRenaming_id
  intro action distribution other sameEntries
  exact (fromEntries action distribution other sameEntries.equiv.toList_eq).symm

theorem SameChances.entries_actions [LawfulEqOrd S] (state : S) :
    (first.actions state).entries = (second.actions state).entries :=
  same.map_offers state fun action _ _ sameEntries => congrArg (Prod.mk action) sameEntries

theorem SameChances.keys_actions [LawfulEqOrd S] (state : S) :
    (first.actions state).keys = (second.actions state).keys := by
  rw [← TreeMap.map_fst_toList_eq_keys, ← TreeMap.map_fst_toList_eq_keys]
  exact same.map_offers state fun _ _ _ _ => rfl

end Tables

section Walks

variable [LawfulEqOrd S] (same : first.SameChances second)
include same

omit [TransOrd A] in
theorem SameChances.perm_states : first.states.toList.Perm second.states.toList := by
  rw [List.perm_ext_iff_of_nodup same.wellFormed.nodup_states same.otherWellFormed.nodup_states]
  intro state
  rw [same.wellFormed.mem_states_iff, same.otherWellFormed.mem_states_iff, same.contains_eq]

theorem SameChances.walk_iff (start stop : S) :
    Walk first.successors start stop ↔ Walk second.successors start stop := by
  unfold Walk
  simp only [same.wellFormed.mem_successors_iff_probability?,
    same.otherWellFormed.mem_successors_iff_probability?, same.probability?_eq]

theorem SameChances.connected?_eq (source target : S) :
    first.connected? source target = second.connected? source target := by
  have reached {model : Model S A R} (wellFormed : model.WellFormed) :
      (closure model.successors model.size [source]).contains target = true ↔
        Walk model.successors source target := by
    rw [← TreeSet.mem_iff_contains, mem_closure_iff _ _
      (fun _ _ isNext => wellFormed.successors_mem_states isNext) (by simp [size])]
    simp
  have sameAnswer : (closure first.successors first.size [source]).contains target =
      (closure second.successors second.size [source]).contains target := by
    rw [Bool.eq_iff_iff, reached same.wellFormed, reached same.otherWellFormed, same.walk_iff]
  rw [connected?, connected?, same.contains_eq, same.contains_eq, sameAnswer]

theorem SameChances.comingTo_equiv {targets others : LabelSet S}
    (sameTargets : targets.Equiv others) :
    (first.comingTo targets).Equiv (second.comingTo others) := by
  apply TreeSet.Equiv.of_forall_contains_eq
  intro state
  rw [Bool.eq_iff_iff, ← TreeSet.mem_iff_contains, ← TreeSet.mem_iff_contains,
    same.wellFormed.mem_comingTo_iff, same.otherWellFormed.mem_comingTo_iff]
  simp only [same.contains_eq, same.walk_iff, sameTargets.mem_iff]

end Walks

end Model

end MarkovDecision
