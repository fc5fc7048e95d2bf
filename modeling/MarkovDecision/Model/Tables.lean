import MarkovDecision.Model.Basic
import MarkovDecision.Decimal.Notation
import MarkovDecision.Label

/-!
# Models from tables

A model can be described by two tables: the actions that each state offers with their costs, and
the next states of each action with their probabilities.  The distribution of an action does not
depend on the state that offers it.

`Model.ofTables` accepts the tables when every offered action has a distribution of finite,
non-negative probabilities that sum to one within the tolerance, and reports the first fault
otherwise.  Distributions of actions that no state offers are not looked at.
-/

namespace MarkovDecision

/-- The cost of each action that a state offers. -/
abbrev CostTable (S A R : Type) [Ord S] [Ord A] : Type :=
  Std.TreeMap S (Std.TreeMap A R)

abbrev DistributionTable (S A R : Type) [Ord S] [Ord A] : Type :=
  Std.TreeMap A (Distribution S R)

/-- Why two tables do not describe a model. -/
inductive TableError (S A R : Type) where
  /-- A state offers an action without a distribution. -/
  | missingDistribution (state : S) (action : A)
  /-- A probability is negative or not finite. -/
  | invalidProbability (state : S) (action : A) (target : S) (probability : R)
  /-- The probabilities of an offered action do not sum to one. -/
  | unbalancedDistribution (state : S) (action : A) (sum : R)

namespace TableError

/-- The message that tells a fault of the tables. -/
def message {S A : Type} [Label S] [Label A] : TableError S A Float → String
  | missingDistribution state action =>
    "action " ++ Label.quoted action ++ " offered at state " ++ Label.quoted state
      ++ " has no transition distribution"
  | invalidProbability state action target probability =>
    "invalid probability " ++ floatText probability ++ " for " ++ Label.quoted state
      ++ " -" ++ Label.quoted action ++ "-> " ++ Label.quoted target
  | unbalancedDistribution state action sum =>
    "distribution of action " ++ Label.quoted action ++ " at state " ++ Label.quoted state
      ++ " sums to " ++ floatText sum ++ ", expected 1"

/-- The message where a whole configuration is refused for its tables. -/
def configurationMessage {S A : Type} [Label S] [Label A] (error : TableError S A Float) : String :=
  "configuration error: " ++ error.message

end TableError

namespace Model

variable {S A R : Type} [Ord S] [Ord A] [Number R]

/-- Whether a number can be a probability in a table. -/
def isProbability (probability : R) : Bool :=
  Number.isFinite probability && !(probability < 0)

/-- The distribution of an action that a state offers, or what is wrong with it. -/
def checkedDistribution (distributions : DistributionTable S A R) (state : S) (action : A) :
    Except (TableError S A R) (List (S × R)) :=
  match distributions[action]? with
  | none => .error (.missingDistribution state action)
  | some distribution =>
    match distribution.toList.find? fun entry => !isProbability entry.2 with
    | some (target, probability) => .error (.invalidProbability state action target probability)
    | none =>
      let sum := distribution.values.foldl (· + ·) 0
      if sumTolerance < Number.magnitude (sum - 1) then
        .error (.unbalancedDistribution state action sum)
      else .ok distribution.toList

/-- Adds the transitions of an action that a state offers. -/
def addOffer (distributions : DistributionTable S A R) (model : Model S A R) (state : S)
    (action : A) (cost : R) : Except (TableError S A R) (Model S A R) :=
  (checkedDistribution distributions state action).map fun entries =>
    entries.foldl (fun model (target, probability) =>
      model.addTransition state action target probability cost) model

/-- Builds the model that two tables describe.  The states with an entry in the table of costs
come first, in their order; other states follow as they are met. -/
def ofTables (costs : CostTable S A R) (distributions : DistributionTable S A R) :
    Except (TableError S A R) (Model S A R) :=
  let states := costs.keys.foldl addState empty
  costs.toList.foldlM (fun model (state, offers) =>
    offers.toList.foldlM (fun model (action, cost) =>
      addOffer distributions model state action cost) model) states

end Model

/-- A model described by tables, with the state that runs start from and the state that they are
to reach. -/
structure Description (S A R : Type) [Ord S] [Ord A] where
  costs : CostTable S A R
  distributions : DistributionTable S A R
  start : S
  goal : S

namespace Description

variable {S A R : Type} [Ord S] [Ord A] [Number R]

def model (description : Description S A R) : Except (TableError S A R) (Model S A R) :=
  Model.ofTables description.costs description.distributions

end Description

end MarkovDecision
