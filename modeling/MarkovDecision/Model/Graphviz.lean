import MarkovDecision.Model.Basic
import MarkovDecision.Decimal.Notation
import MarkovDecision.Label

/-!
# Graphviz text

A model is drawn as a directed graph: states are nodes labelled by their quoted text, and each
transition is an edge labelled by its action, probability and weight.
-/

namespace MarkovDecision

def Transition.text {S A : Type} [Label A] (transition : Transition S A Float) : String :=
  Label.quoted transition.action ++ " p=" ++ floatText transition.probability
    ++ " w=" ++ floatText transition.weight

/-- A text as it stands between the quotes of a Graphviz attribute. -/
def graphvizEscape (text : String) : String :=
  String.ofList <| text.toList.flatMap fun c =>
    match c with
    | '"' => ['\\', '"']
    | '\\' => ['\\', '\\']
    | '\n' => ['\\', 'l']
    | c => [c]

/-- One statement of a Graphviz graph: a node or an edge with its label. -/
def graphvizLine (subject label : String) : String :=
  "    " ++ subject ++ " [ label = \"" ++ graphvizEscape label ++ "\" ]\n"

def Model.graphviz {S A : Type} [Ord S] [Label S] [Label A] (model : Model S A Float) : String :=
  let number (state : S) := toString ((model.number? state).getD 0)
  let nodes := model.states.toList.map fun state => graphvizLine (number state) (Label.quoted state)
  let edges := model.transitions.map fun (source, transition) =>
    graphvizLine (number source ++ " -> " ++ number transition.target) transition.text
  "digraph \x7b\n" ++ String.join nodes ++ String.join edges ++ "\x7d\n"

end MarkovDecision
