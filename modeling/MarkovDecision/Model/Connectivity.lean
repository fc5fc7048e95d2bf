import MarkovDecision.Model.Basic
import MarkovDecision.Closure

/-!
# Connectivity

Which states a walk along the transitions can come to, forwards and backwards.
-/

namespace MarkovDecision

namespace Model

variable {S A R : Type} [Ord S]

/-- The targets of the transitions that leave a state. -/
def successors (model : Model S A R) (state : S) : List S :=
  (model.outgoing state).map (·.target)

/-- The states that transitions into each state leave. -/
def predecessorTable (model : Model S A R) : Std.TreeMap S (List S) :=
  model.transitionsByState.foldl (fun table (source, transition) =>
    table.alter transition.target fun sources? => some (source :: sources?.getD [])) ∅

/-- Whether a walk from the first state comes to the second; every state comes to itself.  There
is no answer for labels that name no state. -/
def connected? (model : Model S A R) (source target : S) : Option Bool :=
  if model.contains source && model.contains target then
    some ((closure model.successors model.size [source]).contains target)
  else none

/-- The states from which a walk comes to one of the targets, the targets themselves included.
Targets that name no state are passed over. -/
def comingTo (model : Model S A R) (targets : LabelSet S) : LabelSet S :=
  let predecessors := model.predecessorTable
  closure (fun state => predecessors.getD state []) model.size
    (targets.toList.filter model.contains)

end Model

end MarkovDecision
