import MarkovDecision.Model.Basic

/-!
# Value iteration

The greatest expected reward of a limited number of steps.  One sweep improves the value of every
state by looking one step ahead; states without actions keep theirs.  Starting from zero, as many
sweeps are made as there are steps, and the policy of the last sweep is the best first step.
-/

namespace MarkovDecision

namespace Model

variable {S A R : Type} [Ord S] [Ord A] [Number R]

/-- What an action promises: the expected reward of the step and discounted value after it. -/
def lookahead (model : Model S A R) (discount : R) (values : ValueTable S R) (state : S)
    (action : A) (distribution : Distribution S R) : R :=
  distribution.toList.foldl (fun total (next, probability) =>
    let reward := (model.weight? state action (some next)).getD 0
    total + probability * (reward + discount * values.getD next 0)) 0

/-- The value of a state one step further on, and the first best action.  A state in which no
action is worth more than `Number.lowest?` gets that value and no action. -/
def improved (model : Model S A R) (discount : R) (values : ValueTable S R) (state : S) :
    R × Option A :=
  let actions := model.actions state
  if actions.isEmpty then (values.getD state 0, none)
  else
    match Number.firstBest? (actions.toList.map fun (action, distribution) =>
        (action, model.lookahead discount values state action distribution)) with
    | some (action, value) => (value, some action)
    | none => (Number.lowest?.getD 0, none)

def sweep (model : Model S A R) (discount : R) (values : ValueTable S R) :
    ValueTable S R × Policy S A :=
  model.states.toList.foldl (fun (next, policy) state =>
    match model.improved discount values state with
    | (value, some action) => (next.insert state value, policy.insert state action)
    | (value, none) => (next.insert state value, policy)) (∅, ∅)

def sweeps (model : Model S A R) (discount : R) :
    Nat → ValueTable S R × Policy S A → ValueTable S R × Policy S A
  | 0, result => result
  | count + 1, result => sweeps model discount count (model.sweep discount result.1)

/-- Value iteration with a fixed number of sweeps.  Without sweeps all values are zero and the
policy is empty. -/
def valueIteration (model : Model S A R) (discount : R) (count : Nat) :
    ValueTable S R × Policy S A :=
  let zeros := model.states.toList.foldl (fun values state => values.insert state 0) ∅
  model.sweeps discount count (zeros, ∅)

end Model

end MarkovDecision
