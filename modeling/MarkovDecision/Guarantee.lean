import MarkovDecision.Reachability
import MarkovDecision.Unfolding
import MarkovDecision.Random.Draw

/-!
# Guaranteed budgets

The percentile question: with which probability can a run reach a target while the accumulated
value stays at or above a bound?  It is reachability in the unfolded model.  The answer is a
policy for the unfolded states whose probability is at least a threshold; it can be projected to
the states of the model and tried out on simulated runs.
-/

namespace MarkovDecision

/-- A question that has no sensible bound or threshold. -/
inductive Parameter where
  | threshold
  | bound
  deriving DecidableEq, Repr

def Parameter.name : Parameter → String
  | threshold => "proba_threshold"
  | bound => "length"

def Parameter.rangeMessage (parameter : Parameter) (value : Float) : String :=
  "invalid parameter " ++ parameter.name ++ " = " ++ floatText value

/-- Why the percentile question has no answer. -/
inductive GuaranteeError (S R : Type) where
  /-- A parameter is outside its range. -/
  | parameter (parameter : Parameter) (value : R)
  /-- The model cannot be unfolded. -/
  | unfold (error : UnfoldError S)
  /-- There are no probabilities. -/
  | reach (error : ReachError)

/-- The message that tells why the percentile question has no answer. -/
def GuaranteeError.message {S : Type} [Label S] : GuaranteeError S Float → String
  | .parameter which value => which.rangeMessage value
  | .unfold error => error.message
  | .reach error => error.message

/-- A percentile question: where runs start and which states they are to reach, the bound on
their value, and the probability from which on a state is worth keeping. -/
structure Question (S R : Type) [Ord S] where
  source : S
  targets : LabelSet S
  bound : R
  threshold : R

/-- The answer to a percentile question: a policy for the unfolded states that succeed often
enough, and the probability of success of every unfolded state. -/
structure Guarantee (S A R : Type) [Ord S] [Ord A] [Number R] where
  policy : Policy (UnfoldedState S R) (UnfoldedAction A)
  values : ValueTable (UnfoldedState S R) R
  unfolding : Unfolding S A R

/-- How a simulated run ends. -/
inductive RunOutcome (R : Type) where
  /-- It came to a target. -/
  | reached (steps : Nat) (value : R)
  /-- It left the states that the policy covers. -/
  | failed (steps : Nat) (value : R)
  /-- It used up its steps. -/
  | timedOut

namespace Guarantee

variable {S A R : Type} [Ord S] [Ord A] [Number R]

/-- The allowance for rounding when probabilities are compared with the threshold. -/
def thresholdTolerance : R :=
  Number.decimal 9

/-- Whether an unfolded state succeeds with at least the given probability. -/
def succeeds (values : ValueTable (UnfoldedState S R) R) (threshold : R)
    (state : UnfoldedState S R) : Bool :=
  threshold ≤ values.getD state 0 + thresholdTolerance

/-- Answers a percentile question by way of the given solver. -/
def answer (model : Model S A R) (solver : Solver R) (question : Question S R)
    (settings : UnfoldSettings R) : Except (GuaranteeError S R) (Guarantee S A R) :=
  if !(0 ≤ question.threshold && question.threshold ≤ 1) then
    .error (.parameter .threshold question.threshold)
  else if !(question.bound ≤ question.bound) then .error (.parameter .bound question.bound)
  else
    match Unfolding.build model question.source question.targets question.bound settings with
    | .error error => .error (.unfold error)
    | .ok unfolding =>
      match unfolding.model.reachPolicy solver unfolding.targets with
      | .error error => .error (.reach error)
      | .ok (policy, values) =>
        .ok { policy := policy.filter fun state _ => succeeds values question.threshold state
              values := values
              unfolding := unfolding }

def initialProbability (guarantee : Guarantee S A R) : R :=
  guarantee.values.getD guarantee.unfolding.initial 0

/-- The actions of the model that the policy takes: the state, the value and the action of each
pair, in order. -/
def decisions (guarantee : Guarantee S A R) : List (S × R × A) :=
  guarantee.policy.toList.filterMap fun entry =>
    match entry with
    | (.pair state value, .take action) => some (state, value, action)
    | _ => none

/-- A policy for the states of the model: in each state, what the policy does with the greatest
value. -/
def projectedPolicy (guarantee : Guarantee S A R) : Policy S A :=
  let best : Std.TreeMap S (R × A) := guarantee.decisions.foldl (fun best (state, value, action) =>
    let richer := match best[state]? with
      | some (known, _) => decide (known < value)
      | none => true
    if richer then best.insert state (value, action) else best) ∅
  best.map fun _ entry => entry.2

/-- The action of the model that the policy takes in a state with an accumulated value. -/
def action? (guarantee : Guarantee S A R) (state : S) (value : R) : Option A :=
  guarantee.policy[UnfoldedState.pair state value]?.bind UnfoldedAction.action?

/-- Goes on with a run that has taken some steps to a state, for the given number of further
steps. -/
def run {G : Type} [WordSource G] (guarantee : Guarantee S A R) (model : Model S A R)
    (targets : LabelSet S) : Nat → Nat → S → R → G → Except DrawError (RunOutcome R) × G
  | 0, steps, state, value, source =>
    (.ok (if targets.contains state then .reached steps value else .timedOut), source)
  | further + 1, steps, state, value, source =>
    if targets.contains state then (.ok (.reached steps value), source)
    else
      match guarantee.action? state value with
      | none => (.ok (.failed steps value), source)
      | some action =>
        match (model.actions state)[action]? with
        | none => (.ok (.failed steps value), source)
        | some distribution =>
          match drawState distribution source with
          | (.error error, source) => (.error error, source)
          | (.ok next, source) =>
            let value := value + (model.weight? state action (some next)).getD 0
            guarantee.run model targets further (steps + 1) next value source

/-- Simulates a run of the policy on the model, from a state with the initial value. -/
def simulate {G : Type} [WordSource G] (guarantee : Guarantee S A R) (model : Model S A R)
    (start : S) (targets : LabelSet S) (maxSteps : Nat) (source : G) :
    Except DrawError (RunOutcome R) × G :=
  guarantee.run model targets maxSteps 0 start (guarantee.unfolding.initial.value?.getD 0) source

end Guarantee

end MarkovDecision
