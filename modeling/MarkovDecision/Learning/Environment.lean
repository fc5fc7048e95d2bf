import MarkovDecision.Random.Draw

/-!
# Environments

What a learner can do: choose an action in a state, and take a step to see where it leads and
what it is worth.
-/

namespace MarkovDecision

/-- The values of the actions of each state. -/
abbrev ActionValues (S A R : Type) [Ord S] [Ord A] : Type :=
  Std.TreeMap S (Std.TreeMap A R)

/-- A model with the state that episodes start from and the state that ends them. -/
structure Environment (S A R : Type) [Ord S] where
  model : Model S A R
  start : S
  goal : S

/-- Where a step leads, what it is worth, and whether it ends the episode. -/
structure Step (S R : Type) where
  next : S
  reward : R
  done : Bool

def greedyAction? {A R : Type} [Ord A] [Number R] (values : Std.TreeMap A R) : Option A :=
  let best := values.toList.foldl (fun (best : Option (A × R)) entry =>
    match best with
    | some (_, bound) => if entry.2 ≤ bound then best else some entry
    | none => some entry) none
  best.map (·.1)

namespace Environment

variable {S A R G : Type} [Ord S] [Ord A] [Number R] [RandomSource G]

/-- Draws the step that an action leads to; `none` if the state does not have the action. -/
def sampleStep (environment : Environment S A R) (state : S) (action : A) (source : G) :
    Except DrawError (Option (Step S R)) × G :=
  match (environment.model.actions state)[action]? with
  | none => (.ok none, source)
  | some distribution =>
    match drawState distribution source with
    | (.error error, source) => (.error error, source)
    | (.ok next, source) =>
      (.ok (some
        { next := next
          reward := (environment.model.weight? state action (some next)).getD 0
          done := sameLabel next environment.goal }), source)

/-- Chooses the action of a policy, or with the probability `exploration` any action of the state;
where the policy has no action, any action is taken, and `none` where there are none. -/
def chooseAction (environment : Environment S A R) (state : S) (policy : Policy S A)
    (exploration : R) (source : G) : Option A × G :=
  let (share, source) := drawUnit source
  let planned := if exploration < share then policy[state]? else none
  match planned with
  | some action => (some action, source)
  | none => drawEntry (environment.model.actions state).keys source

/-- A policy that takes any action in every state that has actions. -/
def randomPolicy (environment : Environment S A R) (source : G) : Policy S A × G :=
  environment.model.states.toList.foldl (fun (policy, source) state =>
    match drawEntry (environment.model.actions state).keys source with
    | (some action, source) => (policy.insert state action, source)
    | (none, source) => (policy, source)) (∅, source)

omit [RandomSource G] in
/-- The value zero for every action of every state. -/
def zeroValues (environment : Environment S A R) : ActionValues S A R :=
  environment.model.states.toList.foldl (fun values state =>
    values.insert state ((environment.model.actions state).map fun _ _ => 0)) ∅

end Environment

end MarkovDecision
