import MarkovDecision.Proofs.Guarantee.Runs

/-!
# The course of a run

A simulated run looks its actions up in the policy of the unfolded model while it walks through the
model itself, and adds up the value on its own.  Both agree: every step goes along a transition of
the model under the action that the policy takes in the pair of the state and the value, and the
unfolded model has an edge for it.  As long as no step is one that the unfolding sends to `bottom`,
the run stays on the pairs.

How a run ends is told by its last state and value alone.  It fails where the policy has no entry,
and never because the policy would have it do something that the model does not offer.
-/

namespace MarkovDecision

open Std (TreeMap TransOrd LawfulEqOrd OrientedCmp ReflCmp)

variable {S A R : Type} [Ord S] [Ord A] [Number R]

omit [Number R] in
theorem Model.hasTransition_eq_isSome (model : Model S A R) (source : S) (action : A) (target : S) :
    model.hasTransition source action target = (model.transition? source action target).isSome := by
  rw [transition?, List.isSome_find?]
  rfl

section Edges

variable [TransOrd S] [TransOrd A] [LawfulNumber R] {model : Model S A R} {targets : LabelSet S}
  {keep : S → R → Bool} {source : S} {initialValue : R} {unfolding : Unfolding S A R}

theorem Unfolding.IsProduct.hasTransition_destination
    (product : IsProduct model targets keep source initialValue unfolding)
    (wellFormed : model.WellFormed) {state : S} {value : R}
    (isKept : KeptPair model targets keep source initialValue state value)
    (noTarget : ¬targets.contains state = true) {transition : Transition S A R}
    (leaves : transition ∈ model.outgoing state) {action : A}
    (isUnder : transition.isUnder action = true) :
    unfolding.model.hasTransition (.pair state value) (.take action)
      (destination keep value transition) = true := by
  have sameAction := (Transition.isUnder_eq_true_iff transition action).mp isUnder
  rw [Model.hasTransition_eq_isSome]
  by_cases kept : keep transition.target (value + transition.weight) = true
  · have weightEq := product.stepWeight isKept noTarget action transition.target
      (value + transition.weight)
    rw [if_pos (leads_of_mem_outgoing wellFormed leaves sameAction kept), Model.weight?_some,
      Model.weight?_some, wellFormed.transition?_of_mem leaves ⟨sameAction, ReflCmp.compare_self⟩]
      at weightEq
    obtain ⟨edge, found, -⟩ := Option.map_eq_some_iff.mp weightEq
    rw [destination, if_pos kept, found]
    rfl
  · have isPruned : transition.probability ∈ pruned model keep state value action :=
      List.mem_map.mpr ⟨transition, List.mem_filter.mpr ⟨leaves, by simp [isUnder, kept]⟩, rfl⟩
    have entryEq := product.prunedEntry isKept noTarget action
    rw [product.wellFormed.probability?_actions, Model.probability?] at entryEq
    obtain ⟨first, rest, listEq⟩ := List.exists_cons_of_ne_nil (List.ne_nil_of_mem isPruned)
    rw [listEq, total?, Option.map_some, Option.map_map] at entryEq
    obtain ⟨edge, found, -⟩ := Option.map_eq_some_iff.mp entryEq
    rw [destination, if_neg kept, found]
    rfl

end Edges

/-- The states that a run comes to and the values that it has there.  Only the entries up to the
number of its steps matter. -/
structure Course (S R : Type) where
  /-- The number of steps taken. -/
  length : Nat
  state : Nat → S
  value : Nat → R

namespace Course

/-- The course of a run that ends where it starts. -/
def stay (state : S) (value : R) : Course S R :=
  ⟨0, fun _ => state, fun _ => value⟩

/-- A course that is preceded by one more state and value. -/
def after (state : S) (value : R) (course : Course S R) : Course S R where
  length := course.length + 1
  state
    | 0 => state
    | step + 1 => course.state step
  value
    | 0 => value
    | step + 1 => course.value step

end Course

namespace Guarantee

/-- A step of a run in a state that is no target: it goes along a transition under the action that
the policy takes, and adds the weight.  The unfolded model has an edge for it. -/
structure Follows (guarantee : Guarantee S A R) (model : Model S A R) (targets : LabelSet S)
    (keep : S → R → Bool) (state : S) (value : R) (next : S) (nextValue : R) : Prop where
  noTarget : ¬targets.contains state = true
  taken : ∃ action, guarantee.policy[UnfoldedState.pair state value]? = some (.take action) ∧
    ∃ transition ∈ model.outgoing state, transition.isUnder action = true ∧
      next = transition.target ∧ nextValue = value + transition.weight ∧
      guarantee.unfolding.model.hasTransition (.pair state value) (.take action)
        (Unfolding.destination keep value transition) = true

/-- What a run of at most some steps reports where it ends, after some steps in a state with a
value. -/
inductive Ends (guarantee : Guarantee S A R) (targets : LabelSet S) (maxSteps steps : Nat)
    (state : S) (value : R) : RunOutcome R → Prop
  | reached (isTarget : targets.contains state = true) :
      Ends guarantee targets maxSteps steps state value (.reached steps value)
  | failed (noTarget : ¬targets.contains state = true) (inTime : steps < maxSteps)
      (uncovered : guarantee.policy[UnfoldedState.pair state value]? = none) :
      Ends guarantee targets maxSteps steps state value (.failed steps value)
  | timedOut (noTarget : ¬targets.contains state = true) (usedUp : steps = maxSteps) :
      Ends guarantee targets maxSteps steps state value .timedOut

/-- A course leads from a state with a value, where some steps have been taken, to where the run
ends with an outcome.  It follows the policy all the way. -/
structure Traces (guarantee : Guarantee S A R) (model : Model S A R) (targets : LabelSet S)
    (keep : S → R → Bool) (maxSteps steps : Nat) (state : S) (value : R) (course : Course S R)
    (outcome : RunOutcome R) : Prop where
  state_eq : course.state 0 = state
  value_eq : course.value 0 = value
  within : steps + course.length ≤ maxSteps
  follows : ∀ step < course.length, guarantee.Follows model targets keep (course.state step)
    (course.value step) (course.state (step + 1)) (course.value (step + 1))
  ends : guarantee.Ends targets maxSteps (steps + course.length) (course.state course.length)
    (course.value course.length) outcome

/-- A course explains what a run from a state with a value reports: it follows the policy, it stays
on the unfolded pairs until a step is sent to `bottom`, and its last state and value decide what is
reported. -/
structure Explains (guarantee : Guarantee S A R) (model : Model S A R) (targets : LabelSet S)
    (keep : S → R → Bool) (maxSteps : Nat) (state : S) (value : R) (course : Course S R)
    (outcome : RunOutcome R) : Prop extends
    Traces guarantee model targets keep maxSteps 0 state value course outcome where
  known : ∀ step ≤ course.length,
    (∀ earlier < step, keep (course.state (earlier + 1)) (course.value (earlier + 1)) = true) →
      guarantee.unfolding.model.contains (.pair (course.state step) (course.value step)) = true
  reached_iff : outcome = .reached course.length (course.value course.length) ↔
    targets.contains (course.state course.length) = true
  failed_iff : outcome = .failed course.length (course.value course.length) ↔
    course.length < maxSteps ∧ ¬targets.contains (course.state course.length) = true ∧
      guarantee.policy[UnfoldedState.pair (course.state course.length)
        (course.value course.length)]? = none
  timedOut_iff : outcome = .timedOut ↔
    course.length = maxSteps ∧ ¬targets.contains (course.state course.length) = true

section Ends

variable {guarantee : Guarantee S A R} {targets : LabelSet S} {maxSteps steps : Nat} {state : S}
  {value : R} {outcome : RunOutcome R}
  (ends : guarantee.Ends targets maxSteps steps state value outcome)
include ends

theorem Ends.reached_iff : outcome = .reached steps value ↔ targets.contains state = true := by
  cases ends with
  | reached isTarget => simp [isTarget]
  | failed noTarget => simp [noTarget]
  | timedOut noTarget => simp [noTarget]

theorem Ends.failed_iff : outcome = .failed steps value ↔
    steps < maxSteps ∧ ¬targets.contains state = true ∧
      guarantee.policy[UnfoldedState.pair state value]? = none := by
  cases ends with
  | reached isTarget => simp [isTarget]
  | failed noTarget inTime uncovered => simp [noTarget, inTime, uncovered]
  | timedOut noTarget usedUp => simp [usedUp]

theorem Ends.timedOut_iff : outcome = .timedOut ↔
    steps = maxSteps ∧ ¬targets.contains state = true := by
  cases ends with
  | reached isTarget => simp [isTarget]
  | failed noTarget inTime => simp [inTime.ne]
  | timedOut noTarget usedUp => simp [noTarget, usedUp]

end Ends

section Traces

variable {guarantee : Guarantee S A R} {model : Model S A R} {targets : LabelSet S}
  {keep : S → R → Bool} {maxSteps steps : Nat} {state : S} {value : R} {outcome : RunOutcome R}

theorem Ends.traces_stay (ends : guarantee.Ends targets maxSteps steps state value outcome)
    (inTime : steps ≤ maxSteps) :
    guarantee.Traces model targets keep maxSteps steps state value (.stay state value) outcome where
  state_eq := rfl
  value_eq := rfl
  within := inTime
  follows _ isLess := (Nat.not_lt_zero _ isLess).elim
  ends := ends

theorem Traces.after {next : S} {nextValue : R} {course : Course S R}
    (follows : guarantee.Follows model targets keep state value next nextValue)
    (traces : guarantee.Traces model targets keep maxSteps (steps + 1) next nextValue course
      outcome) :
    guarantee.Traces model targets keep maxSteps steps state value (course.after state value)
      outcome := by
  have lengthEq : steps + (course.length + 1) = steps + 1 + course.length := by omega
  refine ⟨rfl, rfl, lengthEq.trans_le traces.within, ?_, lengthEq ▸ traces.ends⟩
  rintro (_ | step) isLess
  · rw [← traces.state_eq, ← traces.value_eq] at follows
    exact follows
  · exact traces.follows step (Nat.lt_of_succ_lt_succ isLess)

end Traces

section Answered

variable [TransOrd S] [LawfulEqOrd S] [TransOrd A] [LawfulNumber R] {model : Model S A R}
  {solver : Solver R} {question : Question S R} {settings : UnfoldSettings R}
  {guarantee : Guarantee S A R} {keep : S → R → Bool}
  (product : Unfolding.IsProduct model question.targets keep question.source settings.initialValue
    guarantee.unfolding)
  (answered : answer model solver question settings = .ok guarantee)
include product answered

omit [LawfulEqOrd S] in
theorem policy_eq_none_of_action? {state : S} {value : R}
    (noTarget : ¬question.targets.contains state = true)
    (undecided : guarantee.action? state value = none) :
    guarantee.policy[UnfoldedState.pair state value]? = none := by
  rw [Option.eq_none_iff_forall_ne_some]
  intro entry listed
  obtain ⟨action, rfl, -⟩ := exists_take_of_policy product answered noTarget listed
  rw [action?, listed] at undecided
  cases undecided

omit [LawfulEqOrd S] in
theorem getElem?_actions_ne_none {state : S} {value : R} {action : A}
    (decided : guarantee.action? state value = some action) :
    (model.actions state)[action]? ≠ none := by
  have offered := contains_of_action? product answered decided
  rw [TreeMap.contains_eq_isSome_getElem?] at offered
  exact Option.isSome_iff_ne_none.mp offered

omit [LawfulEqOrd S] [TransOrd A] in
theorem Follows.contains {state next : S} {value nextValue : R}
    (follows : guarantee.Follows model question.targets keep state value next nextValue)
    (kept : keep next nextValue = true) :
    guarantee.unfolding.model.contains (.pair next nextValue) = true := by
  obtain ⟨noTarget, action, listed, transition, leaves, -, rfl, rfl, -⟩ := follows
  exact (product.contains_iff _).mpr (Or.inr ⟨_, _, rfl,
    .step (keptPair_of_policy product answered listed) noTarget leaves kept⟩)

variable (wellFormed : model.WellFormed)
include wellFormed

theorem Moves.follows {state next : S} {value nextValue : R}
    (moves : guarantee.Moves model question.targets state value next nextValue) :
    guarantee.Follows model question.targets keep state value next nextValue := by
  obtain ⟨action, decided, transition, leaves, isUnder, nextEq, valueEq⟩ :=
    moves.exists_transition wellFormed
  exact ⟨moves.noTarget, action, action?_eq_some_iff.mp decided, transition, leaves, isUnder,
    nextEq, valueEq, product.hasTransition_destination wellFormed
      (keptPair_of_action? product answered decided) moves.noTarget leaves isUnder⟩

/-- A run that reports something has a course on which it follows the policy to where it ends. -/
theorem exists_traces_of_run {G : Type} [WordSource G] {maxSteps further steps : Nat} {state : S}
    {value : R} {words rest : G} {outcome : RunOutcome R} (total : steps + further = maxSteps)
    (ran : guarantee.run model question.targets further steps state value words =
      (.ok outcome, rest)) :
    ∃ course, guarantee.Traces model question.targets keep maxSteps steps state value course
      outcome := by
  induction further generalizing steps state value words with
  | zero =>
      unfold run at ran
      split at ran
      · rename_i isTarget
        cases ran
        exact ⟨_, (Ends.reached isTarget).traces_stay (by omega)⟩
      · rename_i noTarget
        cases ran
        exact ⟨_, (Ends.timedOut noTarget (by omega)).traces_stay (by omega)⟩
  | succ further ih =>
      unfold run at ran
      split at ran
      · rename_i isTarget
        cases ran
        exact ⟨_, (Ends.reached isTarget).traces_stay (by omega)⟩
      · rename_i noTarget
        split at ran
        · rename_i undecided
          cases ran
          have uncovered := policy_eq_none_of_action? product answered noTarget undecided
          exact ⟨_, (Ends.failed noTarget (by omega) uncovered).traces_stay (by omega)⟩
        · rename_i action decided
          split at ran
          · rename_i notOffered
            -- What the policy takes is offered in every pair that it covers.
            exact (getElem?_actions_ne_none product answered decided notOffered).elim
          · rename_i distribution offered
            split at ran
            · cases ran
            · rename_i next words drawn
              have follows := Moves.follows product answered wellFormed
                ⟨noTarget, action, distribution, decided, offered, drawable_of_drawState drawn, rfl⟩
              obtain ⟨course, traces⟩ := ih (by omega) ran
              exact ⟨course.after state value, .after follows traces⟩

end Answered

/-- Whatever a simulation reports is explained by the course of its run, from the source with the
initial value. -/
theorem exists_course_of_simulate [TransOrd S] [LawfulEqOrd S] [TransOrd A] [LawfulNumber R]
    {model : Model S A R} {solver : Solver R} {question : Question S R}
    {settings : UnfoldSettings R} {guarantee : Guarantee S A R} (wellFormed : model.WellFormed)
    (answered : answer model solver question settings = .ok guarantee) {G : Type} [WordSource G]
    {maxSteps : Nat} {words rest : G} {outcome : RunOutcome R}
    (simulated : guarantee.simulate model question.source question.targets maxSteps words =
      (.ok outcome, rest)) :
    ∃ remaining,
      Unfolding.remainingLoss model question.targets settings.pruning = .ok remaining ∧
      ∃ course, guarantee.Explains model question.targets
        (Unfolding.keeps remaining question.bound) maxSteps question.source settings.initialValue
        course outcome := by
  obtain ⟨built, -⟩ := answer_eq_ok answered
  obtain ⟨remaining, lossEq⟩ := Unfolding.exists_remainingLoss_of_build built
  have product := Unfolding.isProduct_of_build wellFormed lossEq built
  rw [simulate, product.initial_eq] at simulated
  obtain ⟨course, traces⟩ :=
    exists_traces_of_run product answered wellFormed (Nat.zero_add maxSteps) simulated
  have ends := traces.ends
  rw [Nat.zero_add] at ends
  refine ⟨remaining, lossEq, course, traces, ?_, ends.reached_iff, ends.failed_iff,
    ends.timedOut_iff⟩
  intro step within keptSoFar
  cases step with
  | zero =>
      rw [traces.state_eq, traces.value_eq]
      exact (product.contains_iff _).mpr (Or.inr ⟨_, _, rfl, .start⟩)
  | succ step =>
      exact (traces.follows step within).contains product answered
        (keptSoFar step (Nat.lt_succ_self step))

/-- With the greatest words the run of `loseOne` takes one step, which the unfolding sends to
`bottom`, and its course explains that a target is reached at a loss of five. -/
theorem exists_course_of_simulate_loseOne :
    ∃ guarantee rest,
      answer evenChances LinearProgram.solve loseOne ⟨.shortestPath, 100, 0⟩ = .ok guarantee ∧
      guarantee.simulate evenChances 0 {1, 2} 5 (⟨[4294967295, 4294967295]⟩ : ListedWords) =
        (.ok (.reached 1 (-5)), rest) ∧
      ∃ remaining, Unfolding.remainingLoss evenChances {1, 2} .shortestPath = .ok remaining ∧
        ∃ course, guarantee.Explains evenChances {1, 2} (Unfolding.keeps remaining (-1)) 5 0 0
          course (.reached 1 (-5)) := by
  obtain ⟨guarantee, answered⟩ := exists_eq_ok (show (answer evenChances LinearProgram.solve
    loseOne ⟨.shortestPath, 100, 0⟩).isOk = true by decide +kernel)
  obtain ⟨rest, simulated⟩ := simulate_loseOne answered
  exact ⟨guarantee, rest, answered, simulated,
    exists_course_of_simulate wellFormed_evenChances answered simulated⟩

end Guarantee

end MarkovDecision
