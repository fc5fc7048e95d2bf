import MarkovDecision.Model.Basic
import MarkovDecision.Label

/-!
# The frozen lake

A walker on a square lake goes from the top left corner to the goal in the bottom right corner.
The ice is slippery: a move goes as meant or to one of the two sides, each with probability one
third, and the shore stops a move that would leave the lake.  The holes and the goal keep the
walker.  Cells are numbered row by row.
-/

namespace MarkovDecision

inductive Move where
  | left
  | down
  | right
  | up
  /-- Staying in a hole or at the goal. -/
  | done
  deriving DecidableEq, Repr, Ord

namespace Move

def name : Move → String
  | left => "left"
  | down => "down"
  | right => "right"
  | up => "up"
  | done => "done"

instance : Label Move where
  plain := name
  quoted move := move.name.capitalize

/-- The moves that a meant move may turn into. -/
def slips : Move → List Move
  | left => [up, left, down]
  | down => [left, down, right]
  | right => [down, right, up]
  | up => [right, up, left]
  | done => [done, done, done]

def walking : List Move :=
  [left, down, right, up]

/-- The character that draws a move on a map. -/
def symbol : Move → Char
  | left => '<'
  | down => 'v'
  | right => '>'
  | up => '^'
  | done => '.'

end Move

/-- A lake: the length of its sides and the cells with holes. -/
structure FrozenLake where
  side : Nat
  holes : List Nat

namespace FrozenLake

def small : FrozenLake :=
  ⟨4, [5, 7, 11, 12]⟩

def large : FrozenLake :=
  ⟨8, [19, 29, 36, 41, 42, 46, 49, 52, 54, 59]⟩

def ofSize (big : Bool) : FrozenLake :=
  if big then large else small

variable (lake : FrozenLake)

/-- The cell that the walker starts from. -/
def start : Nat :=
  0

def goal : Nat :=
  lake.side * lake.side - 1

def cells : List Nat :=
  List.range (lake.side * lake.side)

/-- The cell next to another in the direction of a move, or the cell itself at the shore. -/
def neighbour (cell : Nat) (move : Move) : Nat :=
  let row := cell / lake.side
  let column := cell % lake.side
  match move with
  | .left => row * lake.side + (column - 1)
  | .down => min (row + 1) (lake.side - 1) * lake.side + column
  | .right => row * lake.side + min (column + 1) (lake.side - 1)
  | .up => (row - 1) * lake.side + column
  | .done => cell

def isFinal (cell : Nat) : Bool :=
  cell == lake.goal || lake.holes.contains cell

variable {R : Type} [Number R]

def addCell (model : Model Nat Move R) (cell : Nat) : Model Nat Move R :=
  if lake.isFinal cell then model.addTransition cell .done cell 1 0
  else
    let third : R := 1 / ((3 : Nat) : R)
    Move.walking.foldl (fun model move =>
      move.slips.foldl (fun model actual =>
        model.addTransition cell move (lake.neighbour cell actual) third (-1)) model) model

def model : Model Nat Move R :=
  lake.cells.foldl lake.addCell (lake.cells.foldl Model.addState Model.empty)

/-- The character that draws a cell on a map of a policy. -/
def symbol (policy : Policy Nat Move) (cell : Nat) : Char :=
  if cell = lake.goal then 'G'
  else if lake.holes.contains cell then 'H'
  else (policy[cell]?.map Move.symbol).getD '.'

/-- The map of a policy, a line for each row of the lake. -/
def render (policy : Policy Nat Move) : String :=
  String.join <| (List.range lake.side).map fun row =>
    String.ofList <| (List.range lake.side).map
      (fun column => lake.symbol policy (row * lake.side + column)) ++ ['\n']

end FrozenLake

end MarkovDecision
