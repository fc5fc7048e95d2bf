import MarkovDecision.Model.Connectivity
import MarkovDecision.Label

/-!
# Distances to the targets

The length of a transition is its weight with the sign changed, so the distance from a state to
the targets is the least cost of a walk that ends in a target and meets none before.  Rewards make
lengths negative; a cycle of rewards on the way to a target leaves no least cost.

Distances grow from each target along the reversed transitions by rounds of relaxation, the
method of Bellman and Ford.  The number of rounds is one less than the number of states, and an
arc that can still be relaxed after them proves a cycle of negative length.

The distance of a state without a walk to a target is infinite.  A distance is an `Option`, since
not all numbers have an infinity of their own: without one, `none` stands for it.
-/

namespace MarkovDecision

/-- The length of a transition of the given weight. -/
def transitionLength {R : Type} [Number R] (weight : R) : R :=
  -weight

structure Arc (S R : Type) where
  tail : S
  head : S
  length : R

/-- A reward cycle makes the distance to a target unbounded. -/
structure RewardCycle (S : Type) where
  target : S

def RewardCycle.message {S : Type} [Label S] (cycle : RewardCycle S) : String :=
  "budget is not monotone: the model contains a reward cycle reachable from target "
    ++ Label.quoted cycle.target

/-- A table of distances. -/
abbrev Distances (S R : Type) [Ord S] := Std.TreeMap S (Option R)

section Relaxation

variable {S R : Type} [Ord S] [Number R]

def shorter : Option R → Option R → Bool
  | some first, some second => first < second
  | some _, none => true
  | none, _ => false

/-- The distance of a state, which is infinite until another one is recorded. -/
def recorded (distances : Distances S R) (state : S) : Option R :=
  (distances[state]?).getD Number.infinity?

/-- The distance to the head of an arc by way of its tail. -/
def Arc.detour (arc : Arc S R) (distances : Distances S R) : Option R :=
  (recorded distances arc.tail).map (· + arc.length)

/-- Whether going by way of its tail shortens the distance to the head of an arc. -/
def Arc.shortens (arc : Arc S R) (distances : Distances S R) : Bool :=
  shorter (arc.detour distances) (recorded distances arc.head)

/-- Records the distance by way of an arc where it is shorter; the flag tells whether any
distance changed so far. -/
def relax (progress : Distances S R × Bool) (arc : Arc S R) : Distances S R × Bool :=
  if arc.shortens progress.1 then (progress.1.insert arc.head (arc.detour progress.1), true)
  else progress

/-- Relaxes every arc, round after round, until a round changes nothing or the rounds are used
up. -/
def relaxRounds (arcs : List (Arc S R)) : Nat → Distances S R → Distances S R
  | 0, distances => distances
  | rounds + 1, distances =>
    let (distances, changed) := arcs.foldl relax (distances, false)
    if changed then relaxRounds arcs rounds distances else distances

/-- The distances from a state along the arcs, or `none` when an arc can still be relaxed after
the last round. -/
def distancesFrom (arcs : List (Arc S R)) (rounds : Nat) (start : S) : Option (Distances S R) :=
  let distances := relaxRounds arcs rounds ((∅ : Distances S R).insert start (some 0))
  if arcs.any (·.shortens distances) then none else some distances

end Relaxation

namespace Model

variable {S A R : Type} [Ord S] [Number R]

/-- The reversed transitions that do not leave a target, grouped by the state they lead to; the
groups follow the order of the states, and the newest arc of a group comes first. -/
def reversedArcs (model : Model S A R) (targets : LabelSet S) : List (Arc S R) :=
  let kept := model.transitions.filter fun (source, _) => !targets.contains source
  let groups : Std.TreeMap S (List (Arc S R)) :=
    kept.foldl (fun groups (source, transition) =>
      let arc := ⟨transition.target, source, transitionLength transition.weight⟩
      groups.alter transition.target fun arcs? => some (arc :: arcs?.getD [])) ∅
  model.states.toList.flatMap fun state => groups.getD state []

/-- Lowers the distance of each state to that in the other table where it is shorter. -/
def takeShorter (model : Model S A R) (best other : Distances S R) : Distances S R :=
  model.states.toList.foldl (fun best state =>
    if shorter (recorded other state) (recorded best state) then
      best.insert state (recorded other state)
    else best) best

/-- The table in which every state is infinitely far away. -/
def infinitelyFar (model : Model S A R) : Distances S R :=
  model.states.toList.foldl (fun distances state => distances.insert state Number.infinity?) ∅

/-- The distance from every state to the nearest target.  Targets that name no state are passed
over. -/
def distancesToTargets (model : Model S A R) (targets : LabelSet S) :
    Except (RewardCycle S) (Distances S R) :=
  let arcs := model.reversedArcs targets
  (targets.toList.filter model.contains).foldlM (fun best target =>
    match distancesFrom arcs (model.size - 1) target with
    | some distances => .ok (model.takeShorter best distances)
    | none => .error ⟨target⟩) model.infinitelyFar

end Model

end MarkovDecision
