import Mathlib.Data.List.Perm.Subperm
import Mathlib.Data.Set.Card
import MarkovDecision.Proofs.Model.Merged
import MarkovDecision.Proofs.Unfolding.Product

/-!
# The limit of states

No pair is added to an unfolded model that has reached its limit, so a model that is answered is
no larger, unless it is `bottom` with the first pair alone.  Where the limit is the reason that
there is no answer, more nodes than that belong to the product.  A product that is part of another
one is therefore built whenever the other one is.

Counted once each, the kept pairs and `bottom` are the nodes of the product, of which there may be
infinitely many.  Their number decides between an answer and a failure, whatever the order of the
work.
-/

namespace MarkovDecision

open Std

namespace Model

variable {S A R : Type} [Ord S] [TransOrd S] [Ord A] {model : Model S A R}

theorem WellFormed.length_le_size (wellFormed : model.WellFormed) {states : List S}
    (distinct : states.Pairwise fun first second => compare first second ≠ .eq)
    (known : ∀ state ∈ states, model.contains state = true) : states.length ≤ model.size := by
  have numbersDistinct : (states.map model.number?).Nodup := by
    rw [List.Nodup, List.pairwise_map]
    refine distinct.imp_of_mem ?_
    intro first second firstMem secondMem apart sameNumber
    obtain ⟨index, label, firstNumber, found, same⟩ := wellFormed.exists_number (known _ firstMem)
    obtain ⟨other, otherLabel, secondNumber, otherFound, otherSame⟩ :=
      wellFormed.exists_number (known _ secondMem)
    rw [firstNumber, secondNumber, Option.some.injEq] at sameNumber
    rw [sameNumber, otherFound, Option.some.injEq] at found
    rw [found] at otherSame
    exact apart (TransCmp.eq_trans (OrientedCmp.eq_symm same) otherSame)
  have within : states.map model.number? ⊆ (List.range model.size).map some := by
    intro number? member
    obtain ⟨state, stateMem, rfl⟩ := List.mem_map.mp member
    obtain ⟨index, label, numberEq, found, -⟩ := wellFormed.exists_number (known _ stateMem)
    obtain ⟨indexLt, -⟩ := Array.getElem?_eq_some_iff.mp found
    rw [numberEq]
    exact List.mem_map_of_mem (List.mem_range.mpr indexLt)
  simpa using numbersDistinct.length_le_of_subset within

/-- The states of a model, those that compare equal taken for one. -/
def distinctStates (model : Model S A R) : Set (Quotient (sameState S)) :=
  {label | ∃ state, label = Quotient.mk (sameState S) state ∧ model.contains state = true}

/-- Each state is listed once, so the size of a model counts its states. -/
theorem WellFormed.encard_distinctStates (wellFormed : model.WellFormed) :
    model.distinctStates.encard = model.size := by
  classical
  let labels := model.states.toList.map (Quotient.mk (sameState S))
  have nodup : labels.Nodup := by
    rw [List.Nodup, List.pairwise_map]
    exact wellFormed.distinct.imp fun apart same => apart (mk_sameState_eq_iff.mp same)
  have isListed : model.distinctStates = labels.toFinset := by
    ext label
    simp only [distinctStates, Set.mem_ofPred_eq, List.coe_toFinset, labels, List.mem_map]
    constructor
    · rintro ⟨state, rfl, known⟩
      obtain ⟨index, listed, -, found, same⟩ := wellFormed.exists_number known
      exact ⟨listed, Array.mem_toList_iff.mpr (Array.mem_of_getElem? found),
        mk_sameState_eq_iff.mpr same⟩
    · rintro ⟨state, member, rfl⟩
      exact ⟨state, rfl, wellFormed.contains_of_mem member⟩
  rw [isListed, Set.encard_coe_eq_coe_finsetCard, List.toFinset_card_of_nodup nodup,
    List.length_map, Array.length_toList, size]

theorem WellFormed.size_le_size {other : Model S A R} (wellFormed : model.WellFormed)
    (otherWellFormed : other.WellFormed)
    (within : ∀ state, model.contains state = true → other.contains state = true) :
    model.size ≤ other.size :=
  otherWellFormed.length_le_size wellFormed.distinct fun state member =>
    within state (wellFormed.contains_of_mem member)

omit [TransOrd S] [Ord A] in
theorem addState_of_contains {state : S} (known : model.contains state = true) :
    model.addState state = model :=
  if_pos known

omit [TransOrd S] in
theorem size_addTransition_of_contains [Number R] {source target : S}
    (sourceKnown : model.contains source = true) (targetKnown : model.contains target = true)
    (action : A) (probability weight : R) :
    (model.addTransition source action target probability weight).size = model.size := by
  rw [addTransition, addState_of_contains sourceKnown, addState_of_contains targetKnown, size,
    states_connect, size]

end Model

namespace Unfolding

variable {S A R : Type} [Ord S] [Ord A] [Number R] [TransOrd S] [TransOrd A] [LawfulNumber R]
  {model : Model S A R} {targets : LabelSet S} {keep : S → R → Bool} {source : S}
  {initialValue : R} {limit : Nat}

section Size

variable {state : S} {value : R} {before after : Progress S A R}

omit [TransOrd A] in
theorem size_addStep_le {here : UnfoldedState S R} {transition : Transition S A R}
    (stepped : addStep keep limit here value before transition = .ok after)
    (hereKnown : before.model.contains here = true)
    (bottomKnown : before.model.contains .bottom = true) {bound : Nat} (limitLe : limit ≤ bound)
    (sizeLe : before.model.size ≤ bound) : after.model.size ≤ bound := by
  unfold addStep at stepped
  dsimp only at stepped
  split at stepped
  · split at stepped
    · rename_i known
      cases stepped
      rw [Model.size_addTransition_of_contains hereKnown known]
      exact sizeLe
    · rename_i unknown
      split at stepped
      · cases stepped
      · rename_i room
        cases stepped
        have hereStays : (before.model.addState (.pair transition.target
            (value + transition.weight))).contains here = true :=
          (Model.contains_addState _ _ _).mpr (Or.inr hereKnown)
        have thereKnown : (before.model.addState (.pair transition.target
            (value + transition.weight))).contains (.pair transition.target
              (value + transition.weight)) = true :=
          (Model.contains_addState _ _ _).mpr (Or.inl ReflCmp.compare_self)
        rw [Model.size_addTransition_of_contains hereStays thereKnown,
          Model.size_addState_of_not_contains (Bool.eq_false_iff.mpr unknown)]
        omega
  · cases stepped
    rw [Model.size_addTransition_of_contains hereKnown bottomKnown]
    exact sizeLe

theorem size_addTerminal_le {unfolded : UnfoldedModel S A R} (wellFormed : unfolded.WellFormed)
    (known : unfolded.contains (.pair state value) = true) :
    (addTerminal model state value unfolded).size ≤ unfolded.size :=
  (wellFormed_addTerminal model state value wellFormed).size_le_size wellFormed fun label =>
    (contains_addTerminal model state value known label).mp

omit [TransOrd A] in
theorem size_steps_le {transitions : List (Transition S A R)}
    (stepped : transitions.foldlM (addStep keep limit (.pair state value) value) before = .ok after)
    (hereKnown : before.model.contains (.pair state value) = true)
    (bottomKnown : before.model.contains .bottom = true) {bound : Nat} (limitLe : limit ≤ bound)
    (sizeLe : before.model.size ≤ bound) : after.model.size ≤ bound := by
  have atEnd := foldlM_induction (motive := fun (_ : List (Transition S A R))
      (progress : Progress S A R) => progress.model.contains (.pair state value) = true ∧
      progress.model.contains .bottom = true ∧ progress.model.size ≤ bound) ?_ stepped
    ⟨hereKnown, bottomKnown, sizeLe⟩
  · exact atEnd.2.2
  · rintro transition _ progress next ⟨hereKnown, bottomKnown, sizeLe⟩ stepped
    have containsIff := contains_addStep stepped
    exact ⟨(containsIff _).mpr (Or.inr (Or.inr hereKnown)),
      (containsIff _).mpr (Or.inr (Or.inr bottomKnown)),
      size_addStep_le stepped hereKnown bottomKnown limitLe sizeLe⟩

theorem InRounds.size_le (respects : RespectsKeys keep) {rounds : Nat}
    (reached : InRounds model targets keep limit before rounds after)
    (searched : Searched model targets keep source initialValue before) {bound : Nat}
    (limitLe : limit ≤ bound) (sizeLe : before.model.size ≤ bound) : after.model.size ≤ bound := by
  induction reached with
  | none => exact sizeLe
  | next earlier round ih =>
      have middle := searched.inRounds respects earlier
      cases round with
      | loop waits isTarget =>
          exact (size_addTerminal_le middle.wellFormed (middle.known_of_waits waits)).trans ih
      | steps waits noTarget leave stepped =>
          exact size_steps_le stepped (middle.known_of_waits waits) middle.bottomKnown limitLe ih

end Size

section Failure

/-- The kept pairs and `bottom` are more nodes than a limit lets in. -/
def Outgrows (model : Model S A R) (targets : LabelSet S) (keep : S → R → Bool) (source : S)
    (initialValue : R) (limit : Nat) : Prop :=
  ∃ nodes : List (UnfoldedState S R),
    nodes.Pairwise (fun first second => compare first second ≠ .eq) ∧
    (∀ node ∈ nodes, node = .bottom ∨ ∃ state value, node = .pair state value ∧
      KeptPair model targets keep source initialValue state value) ∧
    max limit 2 < nodes.length

variable {before : Progress S A R} {exceeded : Nat}

omit [TransOrd S] [TransOrd A] [LawfulNumber R] in
theorem addStep_eq_error {value : R} {here : UnfoldedState S R} {transition : Transition S A R}
    (failed : addStep keep limit here value before transition = .error exceeded) :
    exceeded = limit ∧ keep transition.target (value + transition.weight) = true ∧
      before.model.contains (.pair transition.target (value + transition.weight)) = false ∧
      limit ≤ before.model.size := by
  unfold addStep at failed
  dsimp only at failed
  split at failed
  · rename_i kept
    split at failed
    · cases failed
    · rename_i unknown
      split at failed
      · rename_i full
        cases failed
        exact ⟨rfl, kept, Bool.eq_false_iff.mpr unknown, full⟩
      · cases failed
  · cases failed

/-- A round fails where one more pair belongs to a model that has reached the limit. -/
theorem Searched.outgrows_of_round
    (searched : Searched model targets keep source initialValue before)
    (failed : Round model targets keep limit before (.error exceeded)) :
    exceeded = limit ∧ Outgrows model targets keep source initialValue limit := by
  cases failed with
  | @steps state value rest transitions _ waits noTarget leave stepped =>
      obtain ⟨earlier, last, later, middle, rfl, folded, fails⟩ :=
        exists_step_of_foldlM_eq_error stepped
      obtain ⟨rfl, lastKept, isNew, full⟩ := addStep_eq_error fails
      have known := searched.known_of_waits waits
      have expanded := expansion_of_foldlM folded known
      have wellFormed := expanded.wellFormed searched.wellFormed
      have here := searched.sound state value known
      have leaves : ∀ transition ∈ earlier ++ last :: later, transition ∈ model.outgoing state :=
        fun transition => leave.mem_iff.mp
      have sound : ∀ node, middle.model.contains node = true → node = .bottom ∨
          ∃ state value, node = .pair state value ∧
            KeptPair model targets keep source initialValue state value := by
        intro node known
        cases node with
        | bottom => exact Or.inl rfl
        | pair other otherValue =>
            exact Or.inr ⟨other, otherValue, rfl, expanded.keptPair here noTarget
              (fun transition member => leaves transition (List.mem_append_left _ member))
              searched.sound known⟩
      have atLeastTwo : [UnfoldedState.bottom, .pair source initialValue].length ≤
          middle.model.size := by
        apply wellFormed.length_le_size
        · simp
        · simp [expanded.contains_iff, searched.bottomKnown, searched.startKnown]
      refine ⟨rfl, .pair last.target (value + last.weight) :: middle.model.states.toList,
        ?_, ?_, ?_⟩
      · refine List.pairwise_cons.mpr ⟨?_, wellFormed.distinct⟩
        intro node member same
        rw [middle.model.contains_congr same, wellFormed.contains_of_mem member] at isNew
        cases isNew
      · intro node member
        rcases List.mem_cons.mp member with rfl | listed
        · exact Or.inr ⟨_, _, rfl, .step here noTarget (leaves last (by simp)) lastKept⟩
        · exact sound node (wellFormed.contains_of_mem listed)
      · simp [Model.size] at full atLeastTwo ⊢
        omega

end Failure

omit [TransOrd S] [TransOrd A] [LawfulNumber R] in
theorem size_start : (start source initialValue : Progress S A R).model.size = 2 := by
  rfl

variable {bound : R} {settings : UnfoldSettings R}

theorem size_le_of_build_eq_ok {unfolding : Unfolding S A R}
    (built : build model source targets bound settings = .ok unfolding) :
    unfolding.model.size ≤ max settings.maxStates 2 := by
  unfold build at built
  split at built
  · cases built
  · rename_i remaining lossEq
    split at built
    · cases built
    · rename_i progress ended
      cases built
      obtain ⟨rounds, reached, -⟩ := exists_inRounds_of_explore_eq_ok ended
      exact reached.size_le (respectsKeys_keeps remaining bound) explored_start.searched
        (Nat.le_max_left _ _) (size_start.trans_le (Nat.le_max_right _ _))

/-- An exploration fails only where the product outgrows the limit. -/
theorem outgrows_of_explore_eq_error (respects : RespectsKeys keep) {exceeded : Nat}
    (failed : explore model targets keep limit (start source initialValue) = .error exceeded) :
    exceeded = limit ∧ Outgrows model targets keep source initialValue limit := by
  obtain ⟨rounds, last, reached, round⟩ := exists_round_of_explore_eq_error failed
  exact (explored_start.searched.inRounds respects reached).outgrows_of_round round

omit [TransOrd S] [TransOrd A] [LawfulNumber R] in
/-- Once it is known what may still be lost, an unfolding is what the exploration makes of it. -/
theorem build_eq_of_loss {remaining : Option (Distances S R)}
    (lossEq : remainingLoss model targets settings.pruning = .ok remaining) :
    build model source targets bound settings =
      match explore model targets (keeps remaining bound) settings.maxStates
          (start source settings.initialValue) with
      | .error limit => .error (.stateLimit limit)
      | .ok progress =>
          .ok ⟨progress.model, progress.targets, .pair source settings.initialValue⟩ := by
  unfold build
  split
  · rename_i cycle otherLoss
    rw [lossEq] at otherLoss
    cases otherLoss
  · rename_i other otherLoss
    rw [lossEq] at otherLoss
    cases otherLoss
    rfl

theorem exists_build_eq_ok {remaining : Option (Distances S R)}
    (lossEq : remainingLoss model targets settings.pruning = .ok remaining)
    (fits : ¬Outgrows model targets (keeps remaining bound) source settings.initialValue
      settings.maxStates) :
    ∃ unfolding, build model source targets bound settings = .ok unfolding := by
  rw [build_eq_of_loss lossEq]
  cases ended : explore model targets (keeps remaining bound) settings.maxStates
      (start source settings.initialValue) with
  | error exceeded =>
      exact (fits (outgrows_of_explore_eq_error (respectsKeys_keeps remaining bound) ended).2).elim
  | ok progress => exact ⟨_, rfl⟩

omit [TransOrd A] in
/-- A product that was built has no more pairs than the limit lets in, and no part of it has. -/
theorem IsProduct.not_outgrows {unfolding : Unfolding S A R} {part : S → R → Bool}
    (product : IsProduct model targets keep source initialValue unfolding)
    (sizeLe : unfolding.model.size ≤ max limit 2)
    (isPart : ∀ state value, KeptPair model targets part source initialValue state value →
      KeptPair model targets keep source initialValue state value) :
    ¬Outgrows model targets part source initialValue limit := by
  rintro ⟨nodes, distinct, belongs, tooMany⟩
  have known : ∀ node ∈ nodes, unfolding.model.contains node = true := by
    intro node member
    rw [product.contains_iff]
    rcases belongs node member with isBottom | ⟨state, value, isPair, isKept⟩
    · exact Or.inl isBottom
    · exact Or.inr ⟨state, value, isPair, isPart state value isKept⟩
  have fits := product.wellFormed.length_le_size distinct known
  omega

section Count

/-- The kept pairs, those that compare equal taken for one. -/
def keptPairs (model : Model S A R) (targets : LabelSet S) (keep : S → R → Bool) (source : S)
    (initialValue : R) : Set (Quotient (Model.sameState (UnfoldedState S R))) :=
  {node | ∃ state value, node = Quotient.mk _ (.pair state value) ∧
    KeptPair model targets keep source initialValue state value}

/-- The number of nodes of the product: the kept pairs and `bottom`. -/
noncomputable def nodeCount (model : Model S A R) (targets : LabelSet S) (keep : S → R → Bool)
    (source : S) (initialValue : R) : ℕ∞ :=
  (keptPairs model targets keep source initialValue).encard + 1

omit [Ord A] [TransOrd A] in
theorem encard_insert_bottom :
    (insert (Quotient.mk _ .bottom) (keptPairs model targets keep source initialValue)).encard =
      nodeCount model targets keep source initialValue := by
  apply Set.encard_insert_of_notMem
  rintro ⟨state, value, same, -⟩
  exact Ordering.noConfusion (Model.mk_sameState_eq_iff.mp same)

omit [Ord A] [TransOrd A] in
theorem Outgrows.lt_encard (outgrows : Outgrows model targets keep source initialValue limit) :
    (max limit 2 : ℕ) < nodeCount model targets keep source initialValue := by
  classical
  obtain ⟨nodes, distinct, belongs, tooMany⟩ := outgrows
  let labels := nodes.map (Quotient.mk (Model.sameState (UnfoldedState S R)))
  have nodup : labels.Nodup := by
    rw [List.Nodup, List.pairwise_map]
    exact distinct.imp fun apart same => apart (Model.mk_sameState_eq_iff.mp same)
  have within : (labels.toFinset : Set (Quotient (Model.sameState (UnfoldedState S R)))) ⊆
      insert (Quotient.mk _ .bottom) (keptPairs model targets keep source initialValue) := by
    intro label member
    obtain ⟨node, isNode, rfl⟩ := List.mem_map.mp (List.mem_toFinset.mp member)
    rcases belongs node isNode with rfl | ⟨state, value, rfl, isKept⟩
    · exact Set.mem_insert _ _
    · exact Set.mem_insert_of_mem _ ⟨state, value, rfl, isKept⟩
  have countLe := Set.encard_le_encard within
  rw [encard_insert_bottom, Set.encard_coe_eq_coe_finsetCard, List.toFinset_card_of_nodup nodup,
    List.length_map] at countLe
  exact (Nat.cast_lt.mpr tooMany).trans_le countLe

variable {progress : Progress S A R}

omit [TransOrd A] in
theorem Searched.size_eq (searched : Searched model targets keep source initialValue progress)
    (noneWaiting : progress.waiting = []) :
    (progress.model.size : ℕ∞) = nodeCount model targets keep source initialValue := by
  have isAll : progress.model.distinctStates =
      insert (Quotient.mk _ .bottom) (keptPairs model targets keep source initialValue) := by
    ext label
    constructor
    · rintro ⟨node, rfl, known⟩
      rcases (searched.contains_iff noneWaiting node).mp known with
        rfl | ⟨state, value, rfl, isKept⟩
      · exact Set.mem_insert _ _
      · exact Set.mem_insert_of_mem _ ⟨state, value, rfl, isKept⟩
    · rintro (rfl | ⟨state, value, rfl, isKept⟩)
      · exact ⟨.bottom, rfl, searched.bottomKnown⟩
      · exact ⟨.pair state value, rfl, searched.contains_of_keptPair noneWaiting isKept⟩
  rw [← searched.wellFormed.encard_distinctStates, isAll, encard_insert_bottom]

/-- What is known of a work list after some rounds: another one can be made while a pair waits, at
the end the nodes are `bottom` and the kept pairs and the limit has room for all, and a round fails
only where it has not. -/
structure Settles (model : Model S A R) (targets : LabelSet S) (keep : S → R → Bool) (source : S)
    (initialValue : R) (limit rounds : Nat) (progress : Progress S A R) : Prop where
  rounds_lt : rounds < max limit 2
  continues : progress.waiting ≠ [] → ∃ result, Round model targets keep limit progress result
  contains_iff : progress.waiting = [] → ∀ label, progress.model.contains label = true ↔
    label = .bottom ∨ ∃ state value, label = .pair state value ∧
      KeptPair model targets keep source initialValue state value
  targets_iff : progress.waiting = [] → ∀ label, progress.targets.contains label = true ↔
    ∃ state value, label = .pair state value ∧
      KeptPair model targets keep source initialValue state value ∧
      targets.contains state = true
  size_eq : progress.waiting = [] →
    (progress.model.size : ℕ∞) = nodeCount model targets keep source initialValue
  fits : progress.waiting = [] →
    nodeCount model targets keep source initialValue ≤ (max limit 2 : ℕ)
  fails : ∀ exceeded, Round model targets keep limit progress (.error exceeded) →
    exceeded = limit ∧
      (max limit 2 : ℕ) < nodeCount model targets keep source initialValue

/-- Rounds in any order come to the same end. -/
theorem settles_of_inRounds (respects : RespectsKeys keep) {rounds : Nat}
    (reached : InRounds model targets keep limit (start source initialValue) rounds progress) :
    Settles model targets keep source initialValue limit rounds progress := by
  have searched := explored_start.searched.inRounds respects reached
  have sizeLe := reached.size_le respects explored_start.searched (Nat.le_max_left limit 2)
    (size_start.trans_le (Nat.le_max_right _ _))
  refine {
    rounds_lt := ?_
    continues := exists_round
    contains_iff := searched.contains_iff
    targets_iff := searched.targets_iff
    size_eq := searched.size_eq
    fits := fun noneWaiting => (searched.size_eq noneWaiting).symm.trans_le (Nat.cast_le.mpr sizeLe)
    fails := fun exceeded failed =>
      (searched.outgrows_of_round failed).imp_right Outgrows.lt_encard }
  have fewRounds := reached.rounds_le
  have startMeasure : (start source initialValue : Progress S A R).measure limit = limit - 2 + 1 :=
    rfl
  omega

end Count

/-- The limit of states is exact: an unfolding is refused if there are more kept pairs, with
`bottom`, than the limit, and otherwise has one node for each of them.  The order in which pairs
are taken off the list and transitions are followed makes no difference. -/
theorem build_limit_exact {remaining : Option (Distances S R)}
    (lossEq : remainingLoss model targets settings.pruning = .ok remaining) :
    let keep := keeps remaining bound
    let first := start source settings.initialValue
    let nodes := nodeCount model targets keep source settings.initialValue
    let limit := settings.maxStates
    (build model source targets bound settings = .error (.stateLimit limit) ↔
      (max limit 2 : ℕ) < nodes) ∧
    (nodes ≤ (max limit 2 : ℕ) → ∃ unfolding,
      build model source targets bound settings = .ok unfolding ∧
        (unfolding.model.size : ℕ∞) = nodes) ∧
    (∃ rounds last, InRounds model targets keep limit first rounds last ∧
      (last.waiting = [] ∧ explore model targets keep limit first = .ok last ∨
        ∃ exceeded, Round model targets keep limit last (.error exceeded) ∧
          explore model targets keep limit first = .error exceeded)) ∧
    ∀ rounds progress, InRounds model targets keep limit first rounds progress →
      Settles model targets keep source settings.initialValue limit rounds progress := by
  intro keep first nodes limit
  have settles {rounds : Nat} {progress : Progress S A R}
      (reached : InRounds model targets keep limit first rounds progress) :
      Settles model targets keep source settings.initialValue limit rounds progress :=
    settles_of_inRounds (respectsKeys_keeps remaining bound) reached
  obtain ⟨rounds, last, reached, atEnd⟩ :=
    (show InRounds model targets keep limit first 0 first from .none).explore
  refine ⟨?_, ?_, ⟨rounds, last, reached, atEnd⟩, fun _ _ => settles⟩
  · rcases atEnd with ⟨noneWaiting, ended⟩ | ⟨exceeded, failing, failed⟩
    · have fits := (settles reached).fits noneWaiting
      rw [build_eq_of_loss lossEq, ended]
      exact iff_of_false (by simp) fits.not_gt
    · obtain ⟨rfl, tooMany⟩ := (settles reached).fails exceeded failing
      rw [build_eq_of_loss lossEq, failed]
      exact iff_of_true rfl tooMany
  · intro fits
    rcases atEnd with ⟨noneWaiting, ended⟩ | ⟨exceeded, failing, failed⟩
    · rw [build_eq_of_loss lossEq, ended]
      exact ⟨_, rfl, (settles reached).size_eq noneWaiting⟩
    · exact (((settles reached).fails exceeded failing).2.not_ge fits).elim

/-- A state that gains one as often as it likes, or goes to a target. -/
def gainOrGo : Model Nat Nat Rat :=
  (Model.empty.addTransition 0 0 0 1 1).addTransition 0 1 1 1 0

theorem nodeCount_gainOrGo : nodeCount gainOrGo {1} (keeps none 0) 0 0 = ⊤ := by
  have isKept (gained : Nat) : KeptPair gainOrGo {1} (keeps none 0) 0 0 0 gained := by
    induction gained with
    | zero => exact .start
    | succ gained ih =>
        obtain ⟨transition, leaves, target, weight⟩ : ∃ transition ∈ gainOrGo.outgoing 0,
            transition.target = 0 ∧ transition.weight = 1 := by decide +kernel
        have kept : keeps (S := Nat) none (0 : Rat) transition.target
            (gained + transition.weight) = true := by
          simp only [keeps, decide_eq_true_eq, weight]
          positivity
        have next := ih.step (by decide) leaves kept
        rwa [target, weight, ← Nat.cast_succ] at next
  have injective : Function.Injective fun gained : Nat =>
      Quotient.mk (Model.sameState (UnfoldedState Nat Rat)) (.pair 0 gained) := by
    intro gained other same
    have sameValue := ((UnfoldedState.compare_pair_eq_iff _ _ _ _).mp
      (Model.mk_sameState_eq_iff.mp same)).2
    exact Nat.cast_injective (LawfulEqCmp.eq_of_compare sameValue)
  have infinite : (keptPairs gainOrGo {1} (keeps none 0) 0 0).Infinite :=
    Set.infinite_of_injective_forall_mem injective fun gained => ⟨0, gained, rfl, isKept gained⟩
  rw [nodeCount, infinite.encard_eq, top_add]

/-- With three to lose `tryAgain` comes to five nodes, which a limit of five lets in and one of
four does not; no limit lets in all that `gainOrGo` can gain. -/
theorem build_limit_exact_tryAgain :
    (∃ remaining, remainingLoss tryAgain {1} .shortestPath = .ok remaining ∧
      nodeCount tryAgain {1} (keeps remaining (-3)) 0 0 = 5) ∧
    build tryAgain 0 {1} (-3) ⟨.shortestPath, 4, 0⟩ = .error (.stateLimit 4) ∧
    ∀ limit, build gainOrGo 0 {1} 0 ⟨.threshold, limit, 0⟩ = .error (.stateLimit limit) := by
  obtain ⟨remaining, lossEq⟩ := exists_eq_ok
    (show (remainingLoss tryAgain {1} .shortestPath).isOk = true by decide +kernel)
  obtain ⟨unfolding, built⟩ := exists_eq_ok
    (show (build tryAgain 0 {1} (-3) ⟨.shortestPath, 5, 0⟩).isOk = true by decide +kernel)
  have fiveNodes : ∀ unfolding ∈ (build tryAgain 0 {1} (-3) ⟨.shortestPath, 5, 0⟩).toOption,
      unfolding.model.size = 5 := by decide +kernel
  have refused (limit : Nat) : build tryAgain 0 {1} (-3) ⟨.shortestPath, limit, 0⟩ =
      .error (.stateLimit limit) ↔
        (max limit 2 : ℕ) < nodeCount tryAgain {1} (keeps remaining (-3)) 0 0 :=
    (build_limit_exact lossEq).1
  have refusedToo (limit : Nat) : build gainOrGo 0 {1} 0 ⟨.threshold, limit, 0⟩ =
      .error (.stateLimit limit) ↔
        (max limit 2 : ℕ) < nodeCount gainOrGo {1} (keeps none 0) 0 0 :=
    (build_limit_exact rfl).1
  have count : nodeCount tryAgain {1} (keeps remaining (-3)) 0 0 = 5 := by
    have fits : nodeCount tryAgain {1} (keeps remaining (-3)) 0 0 ≤ (max 5 2 : ℕ) := by
      refine le_of_not_gt fun tooMany => ?_
      rw [(refused 5).mpr tooMany] at built
      cases built
    obtain ⟨_, alsoBuilt, sizeEq⟩ : ∃ unfolding,
        build tryAgain 0 {1} (-3) ⟨.shortestPath, 5, 0⟩ = .ok unfolding ∧
          (unfolding.model.size : ℕ∞) = nodeCount tryAgain {1} (keeps remaining (-3)) 0 0 :=
      (build_limit_exact lossEq).2.1 fits
    rw [← sizeEq, fiveNodes _ (mem_toOption_of_eq_ok alsoBuilt)]
    rfl
  refine ⟨⟨remaining, lossEq, count⟩, (refused 4).mpr ?_, fun limit => (refusedToo limit).mpr ?_⟩
  · rw [count]
    decide +kernel
  · rw [nodeCount_gainOrGo]
    exact ENat.natCast_lt_top _

end Unfolding

end MarkovDecision
