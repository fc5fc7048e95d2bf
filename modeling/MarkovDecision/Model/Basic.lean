import MarkovDecision.Number
import Std.Data.TreeMap
import Std.Data.TreeSet

/-!
# Models

A model is a directed multigraph.  Its nodes are the states, numbered in the order of their first
mention.  Each transition leaves a state under an action and carries the probability of its
target and the reward, called weight, of taking it.

There is at most one transition for each state, action and target: adding it again adds to its
probability and keeps its first weight.  Labels that the order of states cannot tell apart name
one state, whose label is the one mentioned first.
-/

namespace MarkovDecision

/-- A transition as seen from the state that it leaves. -/
structure Transition (S A R : Type) where
  /-- Position in the order in which the transitions of a model were added. -/
  number : Nat
  action : A
  target : S
  probability : R
  weight : R

/-- A state of a model: its number, and the transitions that leave it, newest first. -/
structure Node (S A R : Type) where
  number : Nat
  outgoing : List (Transition S A R)

/-- The probability of each next state. -/
abbrev Distribution (S R : Type) [Ord S] : Type :=
  Std.TreeMap S R

/-- The actions of a state with their distributions. -/
abbrev ActionTable (S A R : Type) [Ord S] [Ord A] : Type :=
  Std.TreeMap A (Distribution S R)

/-- An action for each state of its domain. -/
abbrev Policy (S A : Type) [Ord S] : Type :=
  Std.TreeMap S A

abbrev ValueTable (S R : Type) [Ord S] : Type :=
  Std.TreeMap S R

/-- Whether two labels name the same thing. -/
def sameLabel {L : Type} [Ord L] (first second : L) : Bool :=
  (compare first second).isEq

namespace Transition

variable {S A R : Type}

def isUnder [Ord A] (transition : Transition S A R) (action : A) : Bool :=
  sameLabel transition.action action

def leadsTo [Ord S] (transition : Transition S A R) (target : S) : Bool :=
  sameLabel transition.target target

/-- Equality of what two transitions carry. -/
def sameContent [Ord A] [Number R] (first second : Transition S A R) : Bool :=
  first.isUnder second.action && Number.same first.probability second.probability
    && Number.same first.weight second.weight

end Transition

/-- A Markov decision process. -/
structure Model (S A R : Type) [Ord S] where
  /-- The labels of the states in the order of their first mention. -/
  states : Array S
  /-- Number and outgoing transitions of every state. -/
  nodes : Std.TreeMap S (Node S A R)
  /-- The number of transitions. -/
  transitionCount : Nat

namespace Model

variable {S A R : Type} [Ord S]

def empty : Model S A R :=
  ⟨#[], ∅, 0⟩

def size (model : Model S A R) : Nat :=
  model.states.size

def contains (model : Model S A R) (state : S) : Bool :=
  model.nodes.contains state

def number? (model : Model S A R) (state : S) : Option Nat :=
  model.nodes[state]?.map (·.number)

/-- The label under which a state was first mentioned; a label that names no state stands for
itself. -/
def storedLabel (model : Model S A R) (state : S) : S :=
  model.nodes.getKeyD state state

def addState (model : Model S A R) (state : S) : Model S A R :=
  if model.contains state then model
  else
    match model with
    | ⟨states, nodes, transitionCount⟩ =>
      let number := states.size
      ⟨states.push state, nodes.insert state ⟨number, []⟩, transitionCount⟩

/-- The transitions that leave a state, newest first.  A label that names no state has none. -/
def outgoing (model : Model S A R) (state : S) : List (Transition S A R) :=
  (model.nodes[state]?.map (·.outgoing)).getD []

/-- Every transition with the state that it leaves, one state after the other. -/
def transitionsByState (model : Model S A R) : List (S × Transition S A R) :=
  model.states.toList.flatMap fun state =>
    (model.outgoing state).map fun transition => (state, transition)

/-- Puts a transition into a list that is ordered by number. -/
def insertByNumber (entry : S × Transition S A R) :
    List (S × Transition S A R) → List (S × Transition S A R)
  | [] => [entry]
  | first :: rest =>
    if entry.2.number ≤ first.2.number then entry :: first :: rest
    else first :: insertByNumber entry rest

/-- Every transition with the state that it leaves, in the order in which they were added. -/
def transitions (model : Model S A R) : List (S × Transition S A R) :=
  model.transitionsByState.foldr insertByNumber []

variable [Ord A]

/-- Whether a state has a transition under an action to a target. -/
def hasTransition (model : Model S A R) (source : S) (action : A) (target : S) : Bool :=
  (model.outgoing source).any fun transition =>
    transition.isUnder action && transition.leadsTo target

variable [Number R]

/-- Adds to the probability of the transitions under an action to a target. -/
def accumulate (action : A) (target : S) (probability : R) (transitions : List (Transition S A R)) :
    List (Transition S A R) :=
  transitions.map fun transition =>
    if transition.isUnder action && transition.leadsTo target then
      { transition with probability := transition.probability + probability }
    else transition

/-- Adds a transition between two states of the model, or adds to the probability of the
transition that is already there. -/
def connect (model : Model S A R) (source : S) (action : A) (target : S)
    (probability weight : R) : Model S A R :=
  if model.hasTransition source action target then
    { model with
      nodes := model.nodes.modify source fun node =>
        { node with outgoing := accumulate action target probability node.outgoing } }
  else
    let added := ⟨model.transitionCount, action, target, probability, weight⟩
    { model with
      nodes := model.nodes.modify source fun node =>
        { node with outgoing := added :: node.outgoing }
      transitionCount := model.transitionCount + 1 }

/-- Adds a transition; labels that name no state yet become states, the source before the
target. -/
def addTransition (model : Model S A R) (source : S) (action : A) (target : S)
    (probability weight : R) : Model S A R :=
  let extended := (model.addState source).addState target
  extended.connect (extended.storedLabel source) action (extended.storedLabel target)
    probability weight

/-- Adds a transition's probability to a table of actions. -/
def addToActions (table : ActionTable S A R) (transition : Transition S A R) :
    ActionTable S A R :=
  table.alter transition.action fun distribution? =>
    some ((distribution?.getD ∅).alter transition.target fun probability? =>
      some (probability?.getD 0 + transition.probability))

/-- The actions of a state, each with the probabilities of its next states.  The table is empty
for a state without transitions and for a label that names no state. -/
def actions (model : Model S A R) (state : S) : ActionTable S A R :=
  (model.outgoing state).foldl addToActions ∅

omit [Ord A] [Number R] in
theorem size_le_size_addState (model : Model S A R) (state : S) :
    model.size ≤ (model.addState state).size := by
  unfold addState
  split
  · exact Nat.le_refl _
  · simp [size]

omit [Ord A] [Number R] in
theorem addState_of_not_contains {model : Model S A R} {state : S}
    (absent : model.contains state = false) :
    model.addState state =
      { model with
        states := model.states.push state
        nodes := model.nodes.insert state ⟨model.size, []⟩ } := by
  simp [addState, absent, size]

omit [Ord A] [Number R] in
theorem size_addState_of_not_contains {model : Model S A R} {state : S}
    (absent : model.contains state = false) :
    (model.addState state).size = model.size + 1 := by
  rw [addState_of_not_contains absent]
  exact Array.size_push state

theorem size_connect (model : Model S A R) (source : S) (action : A) (target : S)
    (probability weight : R) :
    (model.connect source action target probability weight).size = model.size := by
  unfold connect
  split <;> rfl

theorem size_le_size_addTransition (model : Model S A R) (source : S) (action : A) (target : S)
    (probability weight : R) :
    model.size ≤ (model.addTransition source action target probability weight).size := by
  unfold addTransition
  rw [size_connect]
  exact Nat.le_trans (size_le_size_addState _ _) (size_le_size_addState _ _)

/-- The weight of the newest transition of a state under an action, to a given target or to
any. -/
def weight? (model : Model S A R) (state : S) (action : A) (target? : Option S) : Option R :=
  ((model.outgoing state).find? fun transition =>
    transition.isUnder action && target?.all transition.leadsTo).map (·.weight)

/-- The tolerance within which the probabilities of a distribution sum to one. -/
def sumTolerance : R :=
  Number.decimal 6

/-- The first state, in the order of mention, and its first action whose probabilities do not sum
to one, with their sum. -/
def firstUnbalanced? (model : Model S A R) : Option (S × A × R) :=
  model.states.toList.findSome? fun state =>
    (model.actions state).toList.findSome? fun (action, distribution) =>
      let sum := Number.sum distribution.values
      if sumTolerance < Number.magnitude (sum - 1) then some (state, action, sum) else none

end Model

end MarkovDecision
