import MarkovDecision.Proofs.Unfolding.Exploration

/-!
# Exploration in any order

The work list is a stack, and the transitions of a pair are taken newest first.  What is found does
not depend on either.  A round is described here with both orders left open: some pair is taken off
the list and expanded along its transitions in some order.

Whatever the rounds, the nodes found are kept pairs, the next pairs of every node that no longer
waits are nodes too, and each round uses up some of the room left or of the list.  So rounds come to
an end, with every kept pair found or with a pair for which there is no room.
-/

namespace MarkovDecision

open Std

namespace Unfolding

variable {S A R : Type} [Ord S] [Ord A] [Number R]

/-- One round of the work list, in some order: a waiting pair is taken off, and gets its loops if
its state is a target, or else its steps along its transitions. -/
inductive Round (model : Model S A R) (targets : LabelSet S) (keep : S → R → Bool) (limit : Nat)
    (progress : Progress S A R) : Except Nat (Progress S A R) → Prop
  | loop {state : S} {value : R} {rest : List (S × R)}
      (waits : progress.waiting.Perm ((state, value) :: rest))
      (isTarget : targets.contains state = true) :
      Round model targets keep limit progress (.ok
        ⟨addTerminal model state value progress.model,
          progress.targets.insert (.pair state value), rest⟩)
  | steps {state : S} {value : R} {rest : List (S × R)} {transitions : List (Transition S A R)}
      {result : Except Nat (Progress S A R)}
      (waits : progress.waiting.Perm ((state, value) :: rest))
      (noTarget : ¬targets.contains state = true)
      (leave : transitions.Perm (model.outgoing state))
      (stepped : transitions.foldlM (addStep keep limit (.pair state value) value)
        { progress with waiting := rest } = result) :
      Round model targets keep limit progress result

/-- What a number of rounds, one after the other, makes of a work list. -/
inductive InRounds (model : Model S A R) (targets : LabelSet S) (keep : S → R → Bool) (limit : Nat)
    (first : Progress S A R) : Nat → Progress S A R → Prop
  | none : InRounds model targets keep limit first 0 first
  | next {rounds : Nat} {before after : Progress S A R}
      (earlier : InRounds model targets keep limit first rounds before)
      (round : Round model targets keep limit before (.ok after)) :
      InRounds model targets keep limit first (rounds + 1) after

section Rounds

variable {model : Model S A R} {targets : LabelSet S} {keep : S → R → Bool} {limit : Nat}
  {first before after : Progress S A R}

/-- The pair in front of the list, expanded along its transitions as they are listed, makes a
round. -/
theorem round_expand {state : S} {value : R} {rest : List (S × R)}
    (waits : before.waiting = (state, value) :: rest) :
    Round model targets keep limit before
      (expand model targets keep limit state value { before with waiting := rest }) := by
  unfold expand
  dsimp only
  split
  · rename_i isTarget
    exact .loop (List.Perm.of_eq waits) isTarget
  · rename_i noTarget
    exact .steps (List.Perm.of_eq waits) noTarget (List.Perm.refl _) rfl

theorem exists_round (waits : before.waiting ≠ []) :
    ∃ result, Round model targets keep limit before result := by
  obtain ⟨⟨state, value⟩, rest, waitingEq⟩ := List.exists_cons_of_ne_nil waits
  exact ⟨_, round_expand waitingEq⟩

/-- The exploration of the library goes through rounds until no pair waits or a round fails. -/
theorem InRounds.explore {rounds : Nat}
    (earlier : InRounds model targets keep limit first rounds before) :
    ∃ total last, InRounds model targets keep limit first total last ∧
      ((last.waiting = [] ∧ Unfolding.explore model targets keep limit before = .ok last) ∨
        ∃ exceeded, Round model targets keep limit last (.error exceeded) ∧
          Unfolding.explore model targets keep limit before = .error exceeded) := by
  fun_induction Unfolding.explore model targets keep limit before generalizing rounds with
  | case1 progress isEmpty => exact ⟨rounds, progress, earlier, Or.inl ⟨isEmpty, rfl⟩⟩
  | case2 progress state value rest isNext exceeded failed =>
      have round : Round model targets keep limit progress (.error exceeded) :=
        failed ▸ round_expand isNext
      exact ⟨rounds, progress, earlier, Or.inr ⟨exceeded, round, rfl⟩⟩
  | case3 progress state value rest isNext next expanded ih =>
      have round : Round model targets keep limit progress (.ok next) :=
        expanded ▸ round_expand isNext
      exact ih (.next earlier round)

theorem exists_inRounds_of_explore_eq_ok
    (ended : Unfolding.explore model targets keep limit first = .ok after) :
    ∃ rounds, InRounds model targets keep limit first rounds after ∧ after.waiting = [] := by
  obtain ⟨rounds, last, reached, ⟨noneWaiting, endedAt⟩ | ⟨exceeded, -, failed⟩⟩ :=
    (show InRounds model targets keep limit first 0 first from .none).explore
  · rw [ended, Except.ok.injEq] at endedAt
    rw [endedAt]
    exact ⟨rounds, reached, noneWaiting⟩
  · rw [ended] at failed
    cases failed

theorem exists_round_of_explore_eq_error {exceeded : Nat}
    (failed : Unfolding.explore model targets keep limit first = .error exceeded) :
    ∃ rounds last, InRounds model targets keep limit first rounds last ∧
      Round model targets keep limit last (.error exceeded) := by
  obtain ⟨rounds, last, reached, ⟨-, ended⟩ | ⟨other, round, failedToo⟩⟩ :=
    (show InRounds model targets keep limit first 0 first from .none).explore
  · rw [failed] at ended
    cases ended
  · rw [failed, Except.error.injEq] at failedToo
    rw [failedToo]
    exact ⟨rounds, last, reached, round⟩

/-- A round uses up some of the room left or of the list. -/
theorem Round.measure_lt (round : Round model targets keep limit before (.ok after)) :
    after.measure limit < before.measure limit := by
  cases round with
  | @loop state value rest waits isTarget =>
      have grows := size_le_size_addTerminal model state value before.model
      have lengthEq := waits.length_eq
      simp only [Progress.measure, List.length_cons] at lengthEq ⊢
      omega
  | @steps state value rest transitions _ waits noTarget leave stepped =>
      have shrinks : after.measure limit ≤ Progress.measure limit { before with waiting := rest } :=
        foldlM_induction (motive := fun _ progress =>
          progress.measure limit ≤ Progress.measure limit { before with waiting := rest })
          (fun _ _ _ _ shrinks stepped => (measure_addStep stepped).trans shrinks) stepped
          (Nat.le_refl _)
      have lengthEq := waits.length_eq
      simp only [Progress.measure, List.length_cons] at shrinks lengthEq ⊢
      omega

theorem InRounds.rounds_le {rounds : Nat}
    (reached : InRounds model targets keep limit first rounds after) :
    rounds + after.measure limit ≤ first.measure limit := by
  induction reached with
  | none => omega
  | next _ round ih =>
      have shrinks := round.measure_lt
      omega

end Rounds

/-- What holds between two rounds, in whatever order they are made. -/
structure Searched (model : Model S A R) (targets : LabelSet S) (keep : S → R → Bool) (source : S)
    (initialValue : R) (progress : Progress S A R) : Prop where
  wellFormed : progress.model.WellFormed
  bottomKnown : progress.model.contains .bottom = true
  startKnown : progress.model.contains (.pair source initialValue) = true
  sound : ∀ state value, progress.model.contains (.pair state value) = true →
    KeptPair model targets keep source initialValue state value
  waitingKnown : ∀ entry ∈ progress.waiting, progress.model.contains (node entry) = true
  targetsKnown : ∀ label, progress.targets.contains label = true →
    ∃ state value, label = .pair state value ∧ progress.model.contains label = true ∧
      targets.contains state = true
  listed : ∀ state value, progress.model.contains (.pair state value) = true →
    targets.contains state = true →
      (∃ entry ∈ progress.waiting, compare (node entry) (.pair state value) = .eq) ∨
        progress.targets.contains (.pair state value) = true
  closed : ∀ state value, progress.model.contains (.pair state value) = true →
    ¬targets.contains state = true →
      (∃ entry ∈ progress.waiting, compare (node entry) (.pair state value) = .eq) ∨
        ∀ transition ∈ model.outgoing state,
          progress.model.contains (destination keep value transition) = true

variable [TransOrd S] [TransOrd A] [LawfulNumber R] {model : Model S A R} {targets : LabelSet S}
  {keep : S → R → Bool} {source : S} {initialValue : R} {limit : Nat}
  {progress before after : Progress S A R}

omit [TransOrd S] [TransOrd A] [LawfulNumber R] in
theorem Explored.searched
    (explored : Explored model targets keep source initialValue progress) :
    Searched model targets keep source initialValue progress where
  wellFormed := explored.wellFormed
  bottomKnown := explored.bottomKnown
  startKnown := explored.startKnown
  sound := explored.sound
  waitingKnown := explored.waitingKnown
  targetsKnown := explored.targetsKnown
  listed state value known isTarget :=
    (explored.finished state value known).imp_right fun finished => finished.listed isTarget
  closed state value known noTarget := by
    refine (explored.finished state value known).imp_right fun finished transition leaves => ?_
    by_cases kept : keep transition.target (value + transition.weight) = true
    · exact finished.closed noTarget transition leaves kept
    · rw [destination, if_neg kept]
      exact explored.bottomKnown

omit [TransOrd A] in
theorem Searched.contains_of_keptPair
    (searched : Searched model targets keep source initialValue progress)
    (noneWaiting : progress.waiting = []) {state : S} {value : R}
    (isKept : KeptPair model targets keep source initialValue state value) :
    progress.model.contains (.pair state value) = true := by
  induction isKept with
  | start => exact searched.startKnown
  | @step state value transition _ noTarget leaves kept ih =>
      rcases searched.closed state value ih noTarget with ⟨entry, member, -⟩ | closed
      · rw [noneWaiting] at member
        cases member
      · have known := closed transition leaves
        rw [destination, if_pos kept] at known
        exact known
  | same _ sameNode ih => exact (progress.model.contains_congr sameNode).symm.trans ih

omit [TransOrd A] in
theorem Searched.contains_iff
    (searched : Searched model targets keep source initialValue progress)
    (noneWaiting : progress.waiting = []) (label : UnfoldedState S R) :
    progress.model.contains label = true ↔ label = .bottom ∨ ∃ state value,
      label = .pair state value ∧ KeptPair model targets keep source initialValue state value := by
  cases label with
  | bottom => simp [searched.bottomKnown]
  | pair state value =>
      have keptIff : progress.model.contains (.pair state value) = true ↔
          KeptPair model targets keep source initialValue state value :=
        ⟨searched.sound state value, searched.contains_of_keptPair noneWaiting⟩
      simp [keptIff]

omit [TransOrd A] in
theorem Searched.targets_iff
    (searched : Searched model targets keep source initialValue progress)
    (noneWaiting : progress.waiting = []) (label : UnfoldedState S R) :
    progress.targets.contains label = true ↔ ∃ state value, label = .pair state value ∧
      KeptPair model targets keep source initialValue state value ∧
      targets.contains state = true := by
  constructor
  · intro isListed
    obtain ⟨state, value, rfl, known, isTarget⟩ := searched.targetsKnown label isListed
    exact ⟨state, value, rfl, searched.sound state value known, isTarget⟩
  · rintro ⟨state, value, rfl, isKept, isTarget⟩
    have known := searched.contains_of_keptPair noneWaiting isKept
    refine (searched.listed state value known isTarget).resolve_left ?_
    rw [noneWaiting]
    simp

section Taking

variable {state : S} {value : R} {rest : List (S × R)}
  (searched : Searched model targets keep source initialValue before)
  (waits : before.waiting.Perm ((state, value) :: rest))
include searched waits

omit [TransOrd S] [TransOrd A] [LawfulNumber R] in
theorem Searched.known_of_waits : before.model.contains (.pair state value) = true :=
  searched.waitingKnown (state, value) (waits.mem_iff.mpr List.mem_cons_self)

omit [TransOrd S] [TransOrd A] [LawfulNumber R] searched in
/-- A pair that waits is the one that is taken off, or it still waits. -/
theorem same_or_waits {label : UnfoldedState S R}
    (waited : ∃ entry ∈ before.waiting, compare (node entry) label = .eq) :
    compare (.pair state value) label = .eq ∨ ∃ entry ∈ rest, compare (node entry) label = .eq := by
  obtain ⟨entry, member, same⟩ := waited
  rcases List.mem_cons.mp (waits.mem_iff.mp member) with rfl | later
  · exact Or.inl same
  · exact Or.inr ⟨entry, later, same⟩

theorem Searched.loop (isTarget : targets.contains state = true) :
    Searched model targets keep source initialValue
      ⟨addTerminal model state value before.model, before.targets.insert (.pair state value),
        rest⟩ := by
  have known := searched.known_of_waits waits
  have containsIff := contains_addTerminal model state value known
  refine {
    wellFormed := wellFormed_addTerminal model state value searched.wellFormed
    bottomKnown := (containsIff _).mpr searched.bottomKnown
    startKnown := (containsIff _).mpr searched.startKnown
    sound := fun other otherValue otherKnown =>
      searched.sound other otherValue ((containsIff _).mp otherKnown)
    waitingKnown := fun entry member => (containsIff _).mpr
      (searched.waitingKnown entry (waits.mem_iff.mpr (List.mem_cons_of_mem _ member)))
    targetsKnown := ?_
    listed := ?_
    closed := ?_ }
  · intro label isListed
    obtain ⟨other, otherValue, labelEq, labelKnown, otherTarget⟩ :=
      targetsKnown_insert searched.targetsKnown known isTarget label isListed
    exact ⟨other, otherValue, labelEq, (containsIff label).mpr labelKnown, otherTarget⟩
  · intro other otherValue otherKnown otherTarget
    rcases searched.listed other otherValue ((containsIff _).mp otherKnown) otherTarget with
      waited | old
    · refine (same_or_waits waits waited).symm.imp_right fun same => ?_
      simp [TreeSet.contains_insert, same]
    · right
      simp [old]
  · intro other otherValue otherKnown noTarget
    rcases searched.closed other otherValue ((containsIff _).mp otherKnown) noTarget with
      waited | closed
    · refine (same_or_waits waits waited).symm.imp_right fun same => ?_
      obtain ⟨sameState, -⟩ := (UnfoldedState.compare_pair_eq_iff _ _ _ _).mp same
      exact (noTarget ((TreeSet.contains_congr sameState).symm.trans isTarget)).elim
    · exact Or.inr fun transition leaves => (containsIff _).mpr (closed transition leaves)

variable {transitions : List (Transition S A R)} (noTarget : ¬targets.contains state = true)
  (expanded : Expansion keep (.pair state value) value transitions
    { before with waiting := rest } after)
include expanded

omit searched waits [TransOrd A] in
/-- A pair that is known after some steps waits, or it was known before. -/
theorem Expansion.waits_or_old {label : UnfoldedState S R} (isPair : label ≠ .bottom)
    (known : after.model.contains label = true) :
    (∃ entry ∈ after.waiting, compare (node entry) label = .eq) ∨
      before.model.contains label = true := by
  rcases (expanded.contains_iff label).mp known with old | ⟨transition, member, same⟩
  · exact Or.inr old
  · by_cases kept : keep transition.target (value + transition.weight) = true
    · obtain ⟨found, waitingEq, newPairs⟩ := expanded.waiting_eq
      rcases newPairs.covers transition member kept with old | ⟨entry, isFound, sameEntry⟩
      · exact Or.inr ((before.model.contains_congr same).symm.trans old)
      · left
        rw [waitingEq]
        exact ⟨entry, List.mem_append_left _ isFound, TransCmp.eq_trans sameEntry same⟩
    · rw [destination, if_neg kept] at same
      cases label with
      | bottom => exact (isPair rfl).elim
      | pair other otherValue => cases same

omit searched waits [TransOrd S] [TransOrd A] [LawfulNumber R] in
theorem Expansion.waits_of_rest {label : UnfoldedState S R}
    (waits : ∃ entry ∈ rest, compare (node entry) label = .eq) :
    ∃ entry ∈ after.waiting, compare (node entry) label = .eq := by
  obtain ⟨found, waitingEq, -⟩ := expanded.waiting_eq
  obtain ⟨entry, member, same⟩ := waits
  rw [waitingEq]
  exact ⟨entry, List.mem_append_right found member, same⟩

omit [TransOrd A] in
include noTarget in
theorem Searched.steps (respects : RespectsKeys keep)
    (leave : ∀ transition, transition ∈ transitions ↔ transition ∈ model.outgoing state) :
    Searched model targets keep source initialValue after := by
  have containsMono (label : UnfoldedState S R) (old : before.model.contains label = true) :
      after.model.contains label = true := (expanded.contains_iff label).mpr (Or.inl old)
  refine {
    wellFormed := expanded.wellFormed searched.wellFormed
    bottomKnown := containsMono _ searched.bottomKnown
    startKnown := containsMono _ searched.startKnown
    sound := fun _ _ => expanded.keptPair
      (searched.sound state value (searched.known_of_waits waits)) noTarget
      (fun transition => (leave transition).mp) searched.sound
    waitingKnown := ?_
    targetsKnown := ?_
    listed := ?_
    closed := ?_ }
  · intro entry member
    obtain ⟨found, waitingEq, newPairs⟩ := expanded.waiting_eq
    rw [waitingEq] at member
    rcases List.mem_append.mp member with isFound | isRest
    · obtain ⟨transition, isTransition, kept, rfl⟩ := newPairs.isNext entry isFound
      refine (expanded.contains_iff _).mpr (Or.inr ⟨transition, isTransition, ?_⟩)
      rw [destination, if_pos kept, node]
      exact ReflCmp.compare_self
    · exact containsMono _
        (searched.waitingKnown entry (waits.mem_iff.mpr (List.mem_cons_of_mem _ isRest)))
  · intro label isListed
    rw [expanded.targets_eq] at isListed
    obtain ⟨other, otherValue, labelEq, labelKnown, otherTarget⟩ :=
      searched.targetsKnown label isListed
    exact ⟨other, otherValue, labelEq, containsMono label labelKnown, otherTarget⟩
  · intro other otherValue otherKnown otherTarget
    rcases expanded.waits_or_old (by simp) otherKnown with isWaiting | old
    · exact Or.inl isWaiting
    · rcases searched.listed other otherValue old otherTarget with waited | isListed
      · rcases same_or_waits waits waited with same | stillWaits
        · obtain ⟨sameState, -⟩ := (UnfoldedState.compare_pair_eq_iff _ _ _ _).mp same
          exact (noTarget ((TreeSet.contains_congr sameState).trans otherTarget)).elim
        · exact Or.inl (expanded.waits_of_rest stillWaits)
      · right
        rw [expanded.targets_eq]
        exact isListed
  · intro other otherValue otherKnown otherNoTarget
    rcases expanded.waits_or_old (by simp) otherKnown with isWaiting | old
    · exact Or.inl isWaiting
    · rcases searched.closed other otherValue old otherNoTarget with waited | closed
      · rcases same_or_waits waits waited with same | stillWaits
        · right
          intro transition leaves
          obtain ⟨sameState, sameValue⟩ := (UnfoldedState.compare_pair_eq_iff _ _ _ _).mp same
          rw [← model.outgoing_congr sameState, ← leave] at leaves
          rw [← after.model.contains_congr (compare_destination respects sameValue transition)]
          exact (expanded.contains_iff _).mpr (Or.inr ⟨transition, leaves, ReflCmp.compare_self⟩)
        · exact Or.inl (expanded.waits_of_rest stillWaits)
      · exact Or.inr fun transition leaves => containsMono _ (closed transition leaves)

end Taking

/-- A round keeps the search sound, and complete up to what waits. -/
theorem Searched.round (respects : RespectsKeys keep)
    (searched : Searched model targets keep source initialValue before)
    (round : Round model targets keep limit before (.ok after)) :
    Searched model targets keep source initialValue after := by
  cases round with
  | loop waits isTarget => exact searched.loop waits isTarget
  | steps waits noTarget leave stepped =>
      exact searched.steps waits noTarget
        (expansion_of_foldlM stepped (searched.known_of_waits waits)) respects
        fun transition => leave.mem_iff

theorem Searched.inRounds (respects : RespectsKeys keep) {rounds : Nat}
    (searched : Searched model targets keep source initialValue before)
    (reached : InRounds model targets keep limit before rounds after) :
    Searched model targets keep source initialValue after := by
  induction reached with
  | none => exact searched
  | next _ round ih => exact ih.round respects round

end Unfolding

end MarkovDecision
