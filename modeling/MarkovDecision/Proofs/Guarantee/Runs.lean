import MarkovDecision.LinearProgram.Components
import MarkovDecision.Proofs.Guarantee.Answer
import MarkovDecision.Proofs.Random.Draw
import MarkovDecision.Proofs.Unfolding.Budget

/-!
# Simulated runs

`Visits` describes the states and values that runs of a policy come to, whatever the words that
they draw from.  A run that is reported as having come to a target may be out of budget: the
policy follows the pairs of the unfolded model, but a move that the unfolding sends to `bottom`
may lead to a target of the model.  All reported runs are within the budget if and only if no pair
that is visited has such a move.
-/

namespace MarkovDecision

open Std (TreeMap TreeSet TransOrd LawfulEqOrd)

namespace Guarantee

variable {S A R : Type} [Ord S] [Ord A] [Number R]

/-- Whether a run in a state with a value may go on to a next state with its value. -/
structure Moves (guarantee : Guarantee S A R) (model : Model S A R) (targets : LabelSet S)
    (state : S) (value : R) (next : S) (nextValue : R) : Prop where
  noTarget : ¬targets.contains state = true
  decided : ∃ action distribution, guarantee.action? state value = some action ∧
    (model.actions state)[action]? = some distribution ∧ Drawable distribution next ∧
    nextValue = value + (model.weight? state action (some next)).getD 0

/-- The states and values that runs come to, with the number of steps taken. -/
inductive Visits (guarantee : Guarantee S A R) (model : Model S A R) (targets : LabelSet S)
    (start : S) : Nat → S → R → Prop
  | start : Visits guarantee model targets start 0 start
      (guarantee.unfolding.initial.value?.getD 0)
  | step {steps : Nat} {state : S} {value : R} {next : S} {nextValue : R}
      (here : Visits guarantee model targets start steps state value)
      (moves : guarantee.Moves model targets state value next nextValue) :
      Visits guarantee model targets start (steps + 1) next nextValue

/-- Whether every run that is reported as having come to a target is within the budget. -/
def ReportsWithin (guarantee : Guarantee S A R) (model : Model S A R) (question : Question S R) :
    Prop :=
  ∀ (G : Type) [WordSource G] (maxSteps : Nat) (words : G) (steps : Nat) (value : R) (rest : G),
    guarantee.simulate model question.source question.targets maxSteps words =
      (.ok (.reached steps value), rest) → question.bound ≤ value

/-- Whether the unfolding keeps every move into a target that comes up in a run. -/
def KeepsTargets (guarantee : Guarantee S A R) (model : Model S A R) (question : Question S R) :
    Prop :=
  ∀ steps state value next nextValue,
    guarantee.Visits model question.targets question.source steps state value →
    guarantee.Moves model question.targets state value next nextValue →
    question.targets.contains next = true →
    guarantee.unfolding.targets.contains (.pair next nextValue) = true

section Outcomes

variable {guarantee : Guarantee S A R} {model : Model S A R} {targets : LabelSet S} {start : S}

theorem exists_visits_of_run {G : Type} [WordSource G] {further steps : Nat} {state : S}
    {value : R} {words rest : G} {total : Nat} {final : R}
    (visits : guarantee.Visits model targets start steps state value)
    (ran : guarantee.run model targets further steps state value words =
      (.ok (.reached total final), rest)) :
    ∃ target, guarantee.Visits model targets start total target final ∧
      targets.contains target = true := by
  induction further generalizing steps state value words with
  | zero =>
      unfold run at ran
      split at ran
      · rename_i isTarget
        cases ran
        exact ⟨state, visits, isTarget⟩
      · cases ran
  | succ further ih =>
      unfold run at ran
      split at ran
      · rename_i isTarget
        cases ran
        exact ⟨state, visits, isTarget⟩
      · rename_i noTarget
        split at ran
        · cases ran
        · rename_i action decided
          split at ran
          · cases ran
          · rename_i distribution offered
            split at ran
            · cases ran
            · rename_i next words drawn
              exact ih (Visits.step visits ⟨noTarget, action, distribution, decided, offered,
                drawable_of_drawState drawn, rfl⟩) ran

/-- There are words on which a run comes to what is visited. -/
theorem Visits.exists_words {steps : Nat} {state : S} {value : R}
    (visits : guarantee.Visits model targets start steps state value) :
    ∃ words : List UInt32, ∀ further (rest : List UInt32),
      guarantee.simulate model start targets (steps + further) (⟨words ++ rest⟩ : ListedWords) =
        guarantee.run model targets further steps state value ⟨rest⟩ := by
  induction visits with
  | start =>
      refine ⟨[], ?_⟩
      intro further rest
      rw [Nat.zero_add]
      rfl
  | @step steps state value next nextValue _ moves ih =>
      obtain ⟨words, reaches⟩ := ih
      obtain ⟨noTarget, action, distribution, decided, offered, ⟨low, high, drawn⟩, rfl⟩ := moves
      -- Each draw reads two words, so those of the last draw come behind all others.
      refine ⟨words ++ [low, high], ?_⟩
      intro further rest
      have comes := reaches (further + 1) (low :: high :: rest)
      have goesOn : guarantee.run model targets (further + 1) steps state value
          (⟨low :: high :: rest⟩ : ListedWords) =
            guarantee.run model targets further (steps + 1) next
              (value + (model.weight? state action (some next)).getD 0) ⟨rest⟩ := by
        rw [run, if_neg noTarget]
        simp only [decided, offered, drawn]
      rw [List.append_assoc, ← goesOn, ← comes]
      congr 1
      omega

/-- A simulation can report that a target was reached, after some steps and with some value, if
and only if a target is visited so. -/
theorem exists_simulate_iff (steps : Nat) (value : R) :
    (∃ (G : Type) (_ : WordSource G) (maxSteps : Nat) (words rest : G),
      guarantee.simulate model start targets maxSteps words =
        (.ok (.reached steps value), rest)) ↔
      ∃ target, guarantee.Visits model targets start steps target value ∧
        targets.contains target = true := by
  constructor
  · rintro ⟨G, _, maxSteps, words, rest, reached⟩
    exact exists_visits_of_run Visits.start reached
  · rintro ⟨target, visits, isTarget⟩
    obtain ⟨words, comes⟩ := visits.exists_words
    refine ⟨ListedWords, inferInstance, steps, ⟨words ++ []⟩, ⟨[]⟩, ?_⟩
    have ended := comes 0 []
    rw [Nat.add_zero, run, if_pos isTarget] at ended
    exact ended

end Outcomes

section Budget

variable [TransOrd S] [LawfulEqOrd S] [TransOrd A] [LawfulNumber R] {model : Model S A R}
  {solver : Solver R} {question : Question S R} {settings : UnfoldSettings R}
  {guarantee : Guarantee S A R}

omit [TransOrd S] [LawfulEqOrd S] [TransOrd A] [LawfulNumber R] in
theorem Visits.start_noTarget {targets : LabelSet S} {start : S} {steps : Nat} {state : S}
    {value : R} (visits : guarantee.Visits model targets start steps state value)
    (noTarget : ¬targets.contains state = true) : ¬targets.contains start = true := by
  induction visits with
  | start => exact noTarget
  | step _ moves ih => exact ih moves.noTarget

omit [LawfulNumber R] in
/-- A move goes along a transition under the action of the policy, and adds its weight. -/
theorem Moves.exists_transition (wellFormed : model.WellFormed) {targets : LabelSet S}
    {state next : S} {value nextValue : R}
    (moves : guarantee.Moves model targets state value next nextValue) :
    ∃ action, guarantee.action? state value = some action ∧
      ∃ transition ∈ model.outgoing state, transition.isUnder action = true ∧
        next = transition.target ∧ nextValue = value + transition.weight := by
  obtain ⟨-, action, distribution, decided, offered, drawable, rfl⟩ := moves
  obtain ⟨transition, found⟩ := wellFormed.exists_transition?_eq offered drawable.contains
  obtain ⟨leaves, sameAction, sameTarget⟩ := Model.transition?_eq_some found
  refine ⟨action, decided, transition, leaves, ?_, (Std.compare_eq_iff_eq.mp sameTarget).symm, ?_⟩
  · exact (Transition.isUnder_eq_true_iff transition action).mpr sameAction
  · rw [Model.weight?_some, found, Option.map_some, Option.getD_some]

/-- A move from a kept pair into a target is within the budget if and only if the unfolding has
it lead to a target as well. -/
theorem Moves.bound_le_iff (wellFormed : model.WellFormed)
    (answered : answer model solver question settings = .ok guarantee)
    (fromOutside : ¬question.targets.contains question.source = true) {state next : S}
    {value nextValue : R}
    (moves : guarantee.Moves model question.targets state value next nextValue)
    (nextTarget : question.targets.contains next = true) :
    question.bound ≤ nextValue ↔
      guarantee.unfolding.targets.contains (.pair next nextValue) = true := by
  obtain ⟨built, -⟩ := answer_eq_ok answered
  obtain ⟨remaining, lossEq⟩ := Unfolding.exists_remainingLoss_of_build built
  have product := Unfolding.isProduct_of_build wellFormed lossEq built
  have noTarget := moves.noTarget
  obtain ⟨action, decided, transition, leaves, -, rfl, rfl⟩ := moves.exists_transition wellFormed
  have isKept := keptPair_of_action? product answered decided
  constructor
  · intro within
    have kept := (Unfolding.keeps_target_iff wellFormed lossEq
      (wellFormed.closed state transition leaves) nextTarget _ _).mpr within
    exact (product.contains_targets_iff
      (Unfolding.KeptPair.step isKept noTarget leaves kept)).mpr nextTarget
  · intro listed
    obtain ⟨_, _, sameNode, nextKept, -⟩ := (product.targets_iff _).mp listed
    cases sameNode
    exact nextKept.bound_le wellFormed lossEq fromOutside nextTarget

/-- What simulations report as reached is within the budget if and only if a source that is a
target is, and the unfolding keeps every move into a target that comes up in a run. -/
theorem reportsWithin_iff (wellFormed : model.WellFormed)
    (answered : answer model solver question settings = .ok guarantee) :
    guarantee.ReportsWithin model question ↔
      (question.targets.contains question.source = true →
        question.bound ≤ settings.initialValue) ∧
      guarantee.KeepsTargets model question := by
  have initialEq : guarantee.unfolding.initial.value?.getD 0 = settings.initialValue := by
    have built := (answer_eq_ok answered).1
    obtain ⟨remaining, lossEq⟩ := Unfolding.exists_remainingLoss_of_build built
    have product := Unfolding.isProduct_of_build wellFormed lossEq built
    rw [product.initial_eq]
    rfl
  constructor
  · intro allWithin
    have visitWithin {steps : Nat} {target : S} {value : R}
        (visits : guarantee.Visits model question.targets question.source steps target value)
        (isTarget : question.targets.contains target = true) : question.bound ≤ value := by
      obtain ⟨G, _, maxSteps, words, rest, reached⟩ :=
        (exists_simulate_iff steps value).mpr ⟨target, visits, isTarget⟩
      exact allWithin G maxSteps words steps value rest reached
    constructor
    · intro sourceTarget
      rw [← initialEq]
      exact visitWithin Visits.start sourceTarget
    · intro steps state value next nextValue visits moves nextTarget
      have fromOutside := visits.start_noTarget moves.noTarget
      exact (moves.bound_le_iff wellFormed answered fromOutside nextTarget).mp
        (visitWithin (Visits.step visits moves) nextTarget)
  · rintro ⟨startWithin, movesWithin⟩ G _ maxSteps words steps value rest reached
    obtain ⟨target, visits, isTarget⟩ := (exists_simulate_iff steps value).mp
      ⟨G, inferInstance, maxSteps, words, rest, reached⟩
    cases visits with
    | start =>
        rw [initialEq]
        exact startWithin isTarget
    | @step _ state before _ _ here moves =>
        have fromOutside := here.start_noTarget moves.noTarget
        exact (moves.bound_le_iff wellFormed answered fromOutside isTarget).mpr
          (movesWithin _ state before target value here moves isTarget)

end Budget

/-- A state from which a target is reached for free or at a loss of five, with even chances. -/
def evenChances : Model Nat Nat Rat :=
  (Model.empty.addTransition 0 0 1 (1 / 2) 0).addTransition 0 0 2 (1 / 2) (-5)

theorem wellFormed_evenChances : evenChances.WellFormed :=
  (Model.wellFormed_empty.addTransition 0 0 1 (1 / 2) 0).addTransition 0 0 2 (1 / 2) (-5)

/-- How probable it is that `evenChances` comes to a target with at most one lost. -/
def loseOne : Question Nat Rat :=
  ⟨0, {1, 2}, -1, 1 / 2⟩

theorem action?_loseOne {guarantee : Guarantee Nat Nat Rat}
    (answered : answer evenChances LinearProgram.solve loseOne ⟨.shortestPath, 100, 0⟩ =
      .ok guarantee) : guarantee.action? 0 0 = some 0 := by
  have facts : ∀ guarantee ∈ (answer evenChances LinearProgram.solve loseOne
      ⟨.shortestPath, 100, 0⟩).toOption,
      guarantee.unfolding.model.contains (.pair 0 0) = true ∧
        succeeds guarantee.values loseOne.threshold (.pair 0 0) = true ∧
        (guarantee.unfolding.model.bestAction? guarantee.unfolding.targets guarantee.values
          (.pair 0 0)).bind UnfoldedAction.action? = some 0 := by
    decide +kernel
  obtain ⟨known, isSuccess, best⟩ := facts guarantee (mem_toOption_of_eq_ok answered)
  have built := (answer_eq_ok answered).1
  obtain ⟨remaining, lossEq⟩ := Unfolding.exists_remainingLoss_of_build built
  have product := Unfolding.isProduct_of_build wellFormed_evenChances lossEq built
  rw [action?, getElem?_policy product.wellFormed answered, if_pos ⟨known, isSuccess⟩]
  exact best

/-- With the greatest words a run loses five, and is reported as having come to a target. -/
theorem simulate_loseOne {guarantee : Guarantee Nat Nat Rat}
    (answered : answer evenChances LinearProgram.solve loseOne ⟨.shortestPath, 100, 0⟩ =
      .ok guarantee) :
    ∃ rest, guarantee.simulate evenChances 0 {1, 2} 5
      (⟨[4294967295, 4294967295]⟩ : ListedWords) = (.ok (.reached 1 (-5)), rest) := by
  obtain ⟨built, -⟩ := answer_eq_ok answered
  obtain ⟨remaining, lossEq⟩ := Unfolding.exists_remainingLoss_of_build built
  have product := Unfolding.isProduct_of_build wellFormed_evenChances lossEq built
  have drawn : (evenChances.actions 0)[0]?.map (fun distribution =>
      (drawState distribution (⟨[4294967295, 4294967295]⟩ : ListedWords)).1.toOption) =
        some (some 2) := by
    decide +kernel
  have outside : ¬(({1, 2} : LabelSet Nat).contains 0 = true) := by decide +kernel
  have inside : ({1, 2} : LabelSet Nat).contains 2 = true := by decide +kernel
  have weightEq : (evenChances.weight? 0 0 (some 2)).getD 0 = -5 := by decide +kernel
  obtain ⟨distribution, offered, drawnEq⟩ := Option.map_eq_some_iff.mp drawn
  cases outcome : drawState distribution (⟨[4294967295, 4294967295]⟩ : ListedWords) with
  | mk next rest =>
      rw [outcome] at drawnEq
      cases next with
      | error error => cases drawnEq
      | ok next =>
          cases drawnEq
          refine ⟨rest, ?_⟩
          rw [simulate, product.initial_eq, run, if_neg outside]
          have initialEq : (UnfoldedState.pair loseOne.source (0 : Rat)).value?.getD 0 = 0 := rfl
          simp only [initialEq, action?_loseOne answered, offered, outcome, weightEq]
          rw [run, if_pos inside, zero_add, zero_add]

/-- The theorem at work: the policy of `loseOne` makes a move into a target that the unfolding does
not keep, so some reports are out of budget. -/
theorem reportsWithin_iff_loseOne :
    evenChances.WellFormed ∧ ∃ guarantee,
      answer evenChances LinearProgram.solve loseOne ⟨.shortestPath, 100, 0⟩ = .ok guarantee ∧
      (guarantee.ReportsWithin evenChances loseOne ↔
        (loseOne.targets.contains loseOne.source = true → loseOne.bound ≤ 0) ∧
          guarantee.KeepsTargets evenChances loseOne) ∧
      ¬guarantee.ReportsWithin evenChances loseOne := by
  obtain ⟨guarantee, answered⟩ := exists_eq_ok (show (answer evenChances LinearProgram.solve
    loseOne ⟨.shortestPath, 100, 0⟩).isOk = true by decide +kernel)
  refine ⟨wellFormed_evenChances, guarantee, answered,
    reportsWithin_iff wellFormed_evenChances answered, ?_⟩
  intro allWithin
  obtain ⟨rest, reached⟩ := simulate_loseOne answered
  have within : (-1 : Rat) ≤ -5 := allWithin ListedWords 5 _ 1 (-5) rest reached
  norm_num at within

end Guarantee

end MarkovDecision
