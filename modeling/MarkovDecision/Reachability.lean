import MarkovDecision.Model.Connectivity
import MarkovDecision.LinearProgram.Basic

/-!
# Reachability

The greatest probability of reaching a set of targets, from every state of a model, and a policy
that goes for it.  States that are targets or from which no walk comes to a target are settled at
once; the others satisfy the inequalities of Bellman, whose smallest solution a linear program
finds.  The program has a variable for each unsettled state, in their order, and a constraint for
each of its actions.
-/

namespace MarkovDecision

/-- How a state stands to the targets. -/
inductive Classification where
  | target
  | unreachable
  | unknown
  deriving DecidableEq, Repr

/-- The greatest probability of reaching the targets from each state, and the number of states
that needed the linear program. -/
structure Reach (S R : Type) [Ord S] where
  values : ValueTable S R
  unknowns : Nat

/-- The linear program of a reachability problem has no solution. -/
inductive ReachError where
  | infeasible
  deriving DecidableEq, Repr

/-- The message that tells why there are no probabilities. -/
def ReachError.message : ReachError → String
  | infeasible => "linear program failed: problem is infeasible"

variable {S A R : Type} [Ord S] [Ord A] [Number R]

/-- The expected value of a table over a distribution; states without a value count as zero. -/
def actionValue (distribution : Distribution S R) (values : ValueTable S R) : R :=
  Number.sum (distribution.toList.map fun (state, probability) =>
    probability * values.getD state 0)

namespace Model

omit [Ord A] in
def classify (model : Model S A R) (targets : LabelSet S) : Std.TreeMap S Classification :=
  let coming := model.comingTo targets
  model.states.toList.foldl (fun classes state =>
    let classification := if targets.contains state then .target
      else if coming.contains state then .unknown else Classification.unreachable
    classes.insert state classification) ∅

/-- The values of the states that need no linear program. -/
def settledValues (classes : Std.TreeMap S Classification) : ValueTable S R :=
  classes.toList.foldl (fun values (state, classification) =>
    match classification with
    | .target => values.insert state 1
    | .unreachable => values.insert state 0
    | .unknown => values) ∅

/-- The states that need the linear program, in their order. -/
def unsettledStates (classes : Std.TreeMap S Classification) : List S :=
  classes.toList.filterMap fun (state, classification) =>
    if classification = .unknown then some state else none

/-- Coefficients of this size or smaller are left out of a constraint. -/
def negligible : R :=
  Number.decimal 12

/-- The constraint that a state is worth at least what one of its actions promises, or `none` when
no variable takes part in it. -/
def actionConstraint? (settled : ValueTable S R) (indices : Std.TreeMap S Nat) (own : Nat)
    (distribution : Distribution S R) : Option (Constraint R) :=
  let start : Std.TreeMap Nat R := (∅ : Std.TreeMap Nat R).insert own 1
  let (coefficients, bound) := distribution.toList.foldl
    (fun (coefficients, bound) (state, probability) =>
      match indices[state]? with
      | some index => (coefficients.alter index fun coefficient? =>
          some (coefficient?.getD 0 - probability), bound)
      | none => (coefficients, bound + probability * settled.getD state 0))
    (start, (0 : R))
  let terms := coefficients.toList.filter fun entry => negligible < Number.magnitude entry.2
  if terms.isEmpty then none else some ⟨terms, bound⟩

/-- The linear program for the unsettled states. -/
def reachProgram (model : Model S A R) (classes : Std.TreeMap S Classification) :
    LinearProgram R :=
  let settled := settledValues classes
  let unsettled := unsettledStates classes
  let indices : Std.TreeMap S Nat :=
    unsettled.zipIdx.foldl (fun indices (state, index) => indices.insert state index) ∅
  { unknowns := unsettled.length
    constraints := unsettled.zipIdx.flatMap fun (state, index) =>
      (model.actions state).toList.filterMap fun (_, distribution) =>
        actionConstraint? settled indices index distribution }

def clampProbability (value : R) : R :=
  Number.smaller (Number.larger value 0) 1

/-- The greatest probabilities of reaching the targets, by way of the given solver. -/
def reach (model : Model S A R) (solver : Solver R) (targets : LabelSet S) :
    Except ReachError (Reach S R) :=
  let classes := model.classify targets
  let settled := settledValues classes
  let unsettled := unsettledStates classes
  if unsettled.isEmpty then .ok ⟨settled, 0⟩
  else
    match solver (model.reachProgram classes) with
    | none => .error .infeasible
    | some solution =>
      let values := unsettled.zipIdx.foldl (fun values (state, index) =>
        values.insert state (clampProbability (LinearProgram.assignment solution index))) settled
      .ok ⟨values, unsettled.length⟩

/-- The action that a policy for the targets takes in a state: the first one in a target, the
first best one elsewhere. -/
def bestAction? (model : Model S A R) (targets : LabelSet S) (values : ValueTable S R)
    (state : S) : Option A :=
  let actions := model.actions state
  if targets.contains state then actions.minKey?
  else
    (Number.firstBest? (actions.toList.map fun (action, distribution) =>
      (action, actionValue distribution values))).map (·.1)

/-- A policy that takes in every state the best action by a table of values. -/
def greedyPolicy (model : Model S A R) (targets : LabelSet S) (values : ValueTable S R) :
    Policy S A :=
  model.states.toList.foldl (fun policy state =>
    match model.bestAction? targets values state with
    | some action => policy.insert state action
    | none => policy) ∅

/-- The greatest probabilities of reaching the targets, with a policy that goes for them. -/
def reachPolicy (model : Model S A R) (solver : Solver R) (targets : LabelSet S) :
    Except ReachError (Policy S A × ValueTable S R) :=
  (model.reach solver targets).map fun reach =>
    (model.greedyPolicy targets reach.values, reach.values)

end Model

end MarkovDecision
