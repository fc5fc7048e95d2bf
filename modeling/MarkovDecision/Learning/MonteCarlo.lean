import MarkovDecision.Learning.Episode

/-!
# Monte Carlo control

Every-visit Monte Carlo control.  When an episode has ended, its visits are gone through backwards
with the discounted return that followed them, and the value of each visited action moves towards
the return by one over the number of visits that the action has had so far, in all episodes.
-/

namespace MarkovDecision

variable {S A R G : Type} [Ord S] [Ord A] [Number R] [RandomSource G]

/-- How often each action of each state has been taken. -/
abbrev VisitCounts (S A : Type) [Ord S] [Ord A] : Type :=
  Std.TreeMap S (Std.TreeMap A Nat)

omit [Number R] in
def countVisit (counts : VisitCounts S A) (visit : Visit S A R) : VisitCounts S A :=
  counts.alter visit.state fun actions? =>
    some ((actions?.getD ∅).alter visit.action fun count? => some (count?.getD 0 + 1))

/-- How often an action of a state has been taken. -/
def visitCount (counts : VisitCounts S A) (state : S) (action : A) : Nat :=
  ((counts[state]?).bind (·[action]?)).getD 0

/-- Takes one visit into account: the return that follows it, and what the memory makes of it. -/
def backUp (discount : R) (counts : VisitCounts S A) (following : R × Memory S A R)
    (visit : Visit S A R) : R × Memory S A R :=
  let gain := discount * following.1 + visit.reward
  let count := visitCount counts visit.state visit.action
  (gain, following.2.update visit.state visit.action fun value =>
    value + (gain - value) / (count : R))

def monteCarloFrom (environment : Environment S A R) (settings : LearnerSettings R) :
    Nat → R → List (Episode S A R) → VisitCounts S A → Memory S A R → G →
      Except DrawError (Learned S A R) × G
  | 0, _, episodes, _, memory, source =>
    (.ok ⟨memory.values, memory.policy, episodes.reverse⟩, source)
  | count + 1, exploration, episodes, counts, memory, source =>
    match environment.walk exploration (fun memory _ => memory) settings.maxSteps
        environment.start [] memory source with
    | (.error error, source) => (.error error, source)
    | (.ok (episode, memory), source) =>
      let counts := episode.visits.foldl countVisit counts
      let (_, memory) := episode.visits.reverse.foldl (backUp settings.discount counts) (0, memory)
      monteCarloFrom environment settings count (settings.decay exploration)
        (episode :: episodes) counts memory source

/-- Learns action values and a policy, beginning with zero values and a random policy. -/
def monteCarlo (environment : Environment S A R) (settings : LearnerSettings R) (source : G) :
    Except DrawError (Learned S A R) × G :=
  let (policy, source) := environment.randomPolicy source
  monteCarloFrom environment settings settings.episodes settings.exploration [] ∅
    ⟨environment.zeroValues, policy⟩ source

end MarkovDecision
