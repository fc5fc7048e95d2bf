import MarkovDecision.Json.Reader
import MarkovDecision.Learning.Settings
import MarkovDecision.Unfolding

/-!
# Settings

All settings of the solvers, with their defaults, and how they are read from JSON.  Every field
may be left out.
-/

namespace MarkovDecision

structure SolverSettings where
  unfold : UnfoldSettings Float
  learner : LearnerSettings Float
  /-- The seed of the random numbers; without one they cannot be repeated. -/
  seed : Option Nat

namespace Pruning

def ofName? (name : String) : Option Pruning :=
  if name = "threshold" then some threshold
  else if name = "shortest_path" then some shortestPath
  else none

def identifier : Pruning → String
  | threshold => "Threshold"
  | shortestPath => "ShortestPath"

def readName : Json.Reader Pruning := fun chars => do
  let (name, rest) ← Json.readString chars
  match ofName? name with
  | some pruning => .ok (pruning, rest)
  | none => .error .mismatched

/-- Reads a pruning rule: its name, or an object with the name as its only key and no value. -/
def read : Json.Reader Pruning := fun chars =>
  match Json.skipBlanks chars with
  | [] => .error .truncated
  | '"' :: rest => readName ('"' :: rest)
  | '\x7b' :: rest => do
    let (pruning, rest) ← readName rest
    let rest := Json.skipBlanks (← Json.takeColon rest)
    let rest ← match rest with
      | [] => .error .truncated
      | 'n' :: rest => Json.expect "ull".toList rest
      | chars => Json.refuse chars
    match Json.skipBlanks rest with
    | [] => .error .truncated
    | '\x7d' :: rest => .ok (pruning, rest)
    | _ => .error .malformed
  | _ => .error .malformed

end Pruning

namespace UnfoldSettings

def default : UnfoldSettings Float :=
  { pruning := .shortestPath
    maxStates := 1000000
    initialValue := 0 }

def read : Json.Reader (UnfoldSettings Float) :=
  Json.readRecord
    [ Json.field "pruning" Pruning.read fun settings pruning => { settings with pruning }
    , Json.field "max_states" Json.readNatural fun settings maxStates =>
        { settings with maxStates }
    , Json.field "init_value" Json.readFloat fun settings initialValue =>
        { settings with initialValue } ]
    .kept default

end UnfoldSettings

namespace LearnerSettings

def default : LearnerSettings Float :=
  { learningRate := 0.01
    discount := 1
    exploration := 1
    explorationFloor := 0.1
    explorationDecay := 0.9
    episodes := 50
    maxSteps := 1000 }

def read : Json.Reader (LearnerSettings Float) :=
  Json.readRecord
    [ Json.field "alpha" Json.readFloat fun settings learningRate =>
        { settings with learningRate }
    , Json.field "gamma" Json.readFloat fun settings discount => { settings with discount }
    , Json.field "epsilon" Json.readFloat fun settings exploration =>
        { settings with exploration }
    , Json.field "eps_min" Json.readFloat fun settings explorationFloor =>
        { settings with explorationFloor }
    , Json.field "eps_decay" Json.readFloat fun settings explorationDecay =>
        { settings with explorationDecay }
    , Json.field "episodes" Json.readNatural fun settings episodes => { settings with episodes }
    , Json.field "max_steps" Json.readNatural fun settings maxSteps =>
        { settings with maxSteps } ]
    .kept default

end LearnerSettings

namespace SolverSettings

def default : SolverSettings :=
  { unfold := UnfoldSettings.default
    learner := LearnerSettings.default
    seed := none }

def read : Json.Reader SolverSettings :=
  Json.readRecord
    [ Json.field "unfold" UnfoldSettings.read fun settings unfold => { settings with unfold }
    , Json.field "learner" LearnerSettings.read fun settings learner => { settings with learner }
    , Json.field "seed" (Json.readNullable Json.readNatural) fun settings seed =>
        { settings with seed } ]
    .kept default

end SolverSettings

end MarkovDecision
