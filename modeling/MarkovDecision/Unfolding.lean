import MarkovDecision.Distance
import MarkovDecision.Model.Graphviz

/-!
# Unfolding the budget

Whether a run stays within its budget depends on more than its state, so the model is unfolded:
the states of the unfolded model are pairs of a state and the value accumulated so far, and a
single state `bottom` collects everything that is out of budget.  A pair is kept only while its
value can still end at or above the bound; what the value may still lose is taken as nothing, or
as the distance to the targets.  Targets are not expanded: they loop.

The pairs are found with a work list.  Every entry of the list is a pair that was just added to
the unfolded model, whose size is limited, so the room left in the model and the length of the
list together shrink with every entry that is taken off.
-/

namespace MarkovDecision

/-- A state of the unfolded model. -/
inductive UnfoldedState (S R : Type) where
  /-- Everything that is out of budget. -/
  | bottom
  /-- A state together with the value accumulated on the way to it. -/
  | pair (state : S) (value : R)

inductive UnfoldedAction (A : Type) where
  /-- Staying for ever. -/
  | loop
  /-- An action of the model. -/
  | take (action : A)

namespace UnfoldedState

variable {S R : Type}

/-- `bottom` comes first; pairs are ordered by state, then by value. -/
def order [Ord S] [Number R] : UnfoldedState S R → UnfoldedState S R → Ordering
  | bottom, bottom => .eq
  | bottom, pair _ _ => .lt
  | pair _ _, bottom => .gt
  | pair first value, pair second other => (compare first second).then (Number.keyOrder value other)

instance [Ord S] [Number R] : Ord (UnfoldedState S R) :=
  ⟨order⟩

def state? : UnfoldedState S R → Option S
  | bottom => none
  | pair state _ => some state

def value? : UnfoldedState S R → Option R
  | bottom => none
  | pair _ value => some value

instance [Label S] : Label (UnfoldedState S Float) where
  plain
    | bottom => "BOT"
    | pair state value => "(" ++ Label.quoted state ++ "," ++ floatText value ++ ")"
  quoted
    | bottom => "Bot"
    | pair state value =>
      "Pair(" ++ Label.quoted state ++ ", OrderedFloat(" ++ typedFloatText value ++ "))"

end UnfoldedState

namespace UnfoldedAction

variable {A : Type}

/-- `loop` comes before the actions of the model. -/
def order [Ord A] : UnfoldedAction A → UnfoldedAction A → Ordering
  | loop, loop => .eq
  | loop, take _ => .lt
  | take _, loop => .gt
  | take first, take second => compare first second

instance [Ord A] : Ord (UnfoldedAction A) :=
  ⟨order⟩

def action? : UnfoldedAction A → Option A
  | loop => none
  | take action => some action

instance [Label A] : Label (UnfoldedAction A) where
  plain
    | loop => "loop"
    | take action => Label.quoted action
  quoted
    | loop => "Loop"
    | take action => "Take(" ++ Label.quoted action ++ ")"

end UnfoldedAction

/-- What the value of a pair may still lose when it is decided whether to keep the pair. -/
inductive Pruning where
  /-- Nothing: the value itself must reach the bound. -/
  | threshold
  /-- The distance to the nearest target. -/
  | shortestPath
  deriving DecidableEq, Repr

structure UnfoldSettings (R : Type) where
  pruning : Pruning
  /-- No pair is added to an unfolded model of this size. -/
  maxStates : Nat
  /-- The value that a run starts with. -/
  initialValue : R

inductive UnfoldError (S : Type) where
  /-- The distances to the targets are unbounded. -/
  | rewardCycle (cycle : RewardCycle S)
  /-- The unfolded model outgrew its limit. -/
  | stateLimit (limit : Nat)

/-- The message that tells why a model cannot be unfolded. -/
def UnfoldError.message {S : Type} [Label S] : UnfoldError S → String
  | rewardCycle cycle => cycle.message
  | stateLimit limit => "unfolding exceeded the limit of " ++ toString limit ++ " states"

abbrev UnfoldedModel (S A R : Type) [Ord S] [Ord A] [Number R] : Type :=
  Model (UnfoldedState S R) (UnfoldedAction A) R

/-- An unfolded model with its targets and the pair that runs start from. -/
structure Unfolding (S A R : Type) [Ord S] [Ord A] [Number R] where
  model : UnfoldedModel S A R
  targets : LabelSet (UnfoldedState S R)
  initial : UnfoldedState S R

namespace Unfolding

variable {S A R : Type} [Ord S] [Ord A] [Number R]

/-- The rule by which pairs are kept: whether the value, less what it may still lose on the way
from the state, is at or above the bound. -/
def keeps (remaining : Option (Distances S R)) (bound : R) (state : S) (value : R) : Bool :=
  match remaining with
  | none => bound ≤ value
  | some distances =>
    match recorded distances state with
    | some distance => bound ≤ value - distance
    | none => false

/-- The work left: an unfolded model so far, and the pairs in it that wait to be expanded. -/
structure Progress (S A R : Type) [Ord S] [Ord A] [Number R] where
  model : UnfoldedModel S A R
  targets : LabelSet (UnfoldedState S R)
  waiting : List (S × R)

/-- Adds the loops of a target: one for each of its actions that may stay, or a plain loop if
there is none. -/
def addTerminal (model : Model S A R) (state : S) (value : R) (unfolded : UnfoldedModel S A R) :
    UnfoldedModel S A R :=
  let here := UnfoldedState.pair state value
  let staying := (model.actions state).toList.filter fun entry => entry.2.contains state
  if staying.isEmpty then unfolded.addTransition here .loop here 1 0
  else staying.foldl (fun unfolded (action, _) =>
    unfolded.addTransition here (.take action) here 1 0) unfolded

/-- Adds what becomes of one transition of a pair: it leads to the next pair, which is added to
the model and to the work list where it is new, or to `bottom` if the next pair is not kept. -/
def addStep (keep : S → R → Bool) (limit : Nat) (here : UnfoldedState S R) (value : R) :
    Progress S A R → Transition S A R → Except Nat (Progress S A R)
  | ⟨model, targets, waiting⟩, transition =>
    let next := value + transition.weight
    let action := UnfoldedAction.take transition.action
    if keep transition.target next then
      let there := UnfoldedState.pair transition.target next
      if model.contains there then
        .ok ⟨model.addTransition here action there transition.probability transition.weight,
          targets, waiting⟩
      else if limit ≤ model.size then .error limit
      else
        .ok ⟨(model.addState there).addTransition here action there transition.probability
          transition.weight, targets, (transition.target, next) :: waiting⟩
    else
      .ok ⟨model.addTransition here action .bottom transition.probability transition.weight,
        targets, waiting⟩

/-- Adds what becomes of a pair: the loops of a target, or the steps along its transitions. -/
def expand (model : Model S A R) (targets : LabelSet S) (keep : S → R → Bool) (limit : Nat)
    (state : S) (value : R) (progress : Progress S A R) : Except Nat (Progress S A R) :=
  let here := UnfoldedState.pair state value
  if targets.contains state then
    .ok { progress with
      model := addTerminal model state value progress.model
      targets := progress.targets.insert here }
  else (model.outgoing state).foldlM (addStep keep limit here value) progress

/-- The room left in the unfolded model and the work waiting. -/
def Progress.measure (limit : Nat) (progress : Progress S A R) : Nat :=
  limit - progress.model.size + progress.waiting.length

theorem size_le_size_addTerminal (model : Model S A R) (state : S) (value : R)
    (unfolded : UnfoldedModel S A R) :
    unfolded.size ≤ (addTerminal model state value unfolded).size := by
  have grows (entries : List (A × Distribution S R)) (start : UnfoldedModel S A R) :
      start.size ≤ (entries.foldl (fun unfolded (action, _) =>
        unfolded.addTransition (.pair state value) (.take action) (.pair state value) 1 0)
        start).size := by
    induction entries generalizing start with
    | nil => exact Nat.le_refl _
    | cons entry entries ih =>
      exact Nat.le_trans (Model.size_le_size_addTransition _ _ _ _ _ _) (ih _)
  unfold addTerminal
  dsimp only
  split
  · exact Model.size_le_size_addTransition _ _ _ _ _ _
  · exact grows _ _

theorem measure_addStep {keep : S → R → Bool} {limit : Nat} {here : UnfoldedState S R} {value : R}
    {progress next : Progress S A R} {transition : Transition S A R}
    (stepped : addStep keep limit here value progress transition = .ok next) :
    next.measure limit ≤ progress.measure limit := by
  unfold addStep at stepped
  dsimp only at stepped
  split at stepped
  · split at stepped
    · cases stepped
      have grows := Model.size_le_size_addTransition progress.model here (.take transition.action)
        (.pair transition.target (value + transition.weight)) transition.probability
        transition.weight
      simp only [Progress.measure]
      omega
    · rename_i absent
      split at stepped
      · cases stepped
      · rename_i room
        cases stepped
        have grows := Model.size_le_size_addTransition
          (progress.model.addState (.pair transition.target (value + transition.weight))) here
          (.take transition.action) (.pair transition.target (value + transition.weight))
          transition.probability transition.weight
        rw [Model.size_addState_of_not_contains (by simpa using absent)] at grows
        simp only [Progress.measure, List.length_cons]
        omega
  · cases stepped
    have grows := Model.size_le_size_addTransition progress.model here (.take transition.action)
      .bottom transition.probability transition.weight
    simp only [Progress.measure]
    omega

theorem measure_expand {model : Model S A R} {targets : LabelSet S} {keep : S → R → Bool}
    {limit : Nat} {state : S} {value : R} {progress next : Progress S A R}
    (expanded : expand model targets keep limit state value progress = .ok next) :
    next.measure limit ≤ progress.measure limit := by
  have steps (transitions : List (Transition S A R)) (start : Progress S A R)
      (stepped : transitions.foldlM (addStep keep limit (.pair state value) value) start =
        .ok next) : next.measure limit ≤ start.measure limit := by
    induction transitions generalizing start with
    | nil => cases stepped; exact Nat.le_refl _
    | cons transition transitions ih =>
      rw [List.foldlM_cons] at stepped
      cases first : addStep keep limit (.pair state value) value start transition with
      | error error => rw [first] at stepped; cases stepped
      | ok middle =>
        rw [first] at stepped
        exact Nat.le_trans (ih middle stepped) (measure_addStep first)
  unfold expand at expanded
  dsimp only at expanded
  split at expanded
  · cases expanded
    have grows := size_le_size_addTerminal model state value progress.model
    simp only [Progress.measure]
    omega
  · exact steps _ _ expanded

set_option linter.unusedVariables false in
/-- Expands pairs until none is waiting. -/
def explore (model : Model S A R) (targets : LabelSet S) (keep : S → R → Bool) (limit : Nat)
    (progress : Progress S A R) : Except Nat (Progress S A R) :=
  match waiting : progress.waiting with
  | [] => .ok progress
  | (state, value) :: rest =>
    match expanded : expand model targets keep limit state value
        { progress with waiting := rest } with
    | .error limit => .error limit
    | .ok next => explore model targets keep limit next
termination_by progress.measure limit
decreasing_by
  have shrinks := measure_expand expanded
  simp only [Progress.measure, waiting, List.length_cons] at shrinks ⊢
  omega

/-- The unfolded model before any pair is expanded. -/
def start (source : S) (initialValue : R) : Progress S A R :=
  let looping : UnfoldedModel S A R := Model.empty.addTransition .bottom .loop .bottom 1 0
  { model := looping.addState (.pair source initialValue)
    targets := ∅
    waiting := [(source, initialValue)] }

/-- What a value may still lose on the way from each state, by the pruning rule. -/
def remainingLoss (model : Model S A R) (targets : LabelSet S) :
    Pruning → Except (RewardCycle S) (Option (Distances S R))
  | .threshold => .ok none
  | .shortestPath => (model.distancesToTargets targets).map some

/-- Unfolds a model from a source towards the targets, keeping the pairs whose value can still
end at or above the bound. -/
def build (model : Model S A R) (source : S) (targets : LabelSet S) (bound : R)
    (settings : UnfoldSettings R) : Except (UnfoldError S) (Unfolding S A R) :=
  match remainingLoss model targets settings.pruning with
  | .error cycle => .error (.rewardCycle cycle)
  | .ok remaining =>
    match explore model targets (keeps remaining bound) settings.maxStates
        (start source settings.initialValue) with
    | .error limit => .error (.stateLimit limit)
    | .ok progress =>
      .ok { model := progress.model
            targets := progress.targets
            initial := .pair source settings.initialValue }

end Unfolding

end MarkovDecision
