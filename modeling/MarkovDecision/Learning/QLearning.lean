import MarkovDecision.Learning.Episode

/-!
# Q-learning

Tabular Q-learning.  After each step the value of the action taken moves towards the reward plus
the discounted best value of the next state, and the policy of the state becomes greedy.
-/

namespace MarkovDecision

variable {S A R G : Type} [Ord S] [Ord A] [Number R] [RandomSource G]

/-- The largest value of the actions of a state; zero for a state without actions. -/
def bestValue (values : ActionValues S A R) (state : S) : R :=
  match values[state]? with
  | none => 0
  | some actions => if actions.isEmpty then 0 else (Number.largest? actions.values).getD 0

def learnVisit (settings : LearnerSettings R) (memory : Memory S A R) (visit : Visit S A R) :
    Memory S A R :=
  let next := bestValue memory.values visit.next
  memory.update visit.state visit.action fun value =>
    value + settings.learningRate * (visit.reward + settings.discount * next - value)

def qLearnFrom (environment : Environment S A R) (settings : LearnerSettings R) :
    Nat → R → List (Episode S A R) → Memory S A R → G → Except DrawError (Learned S A R) × G
  | 0, _, episodes, memory, source =>
    (.ok ⟨memory.values, memory.policy, episodes.reverse⟩, source)
  | count + 1, exploration, episodes, memory, source =>
    match environment.walk exploration (learnVisit settings) settings.maxSteps environment.start []
        memory source with
    | (.error error, source) => (.error error, source)
    | (.ok (episode, memory), source) =>
      qLearnFrom environment settings count (settings.decay exploration) (episode :: episodes)
        memory source

/-- Learns action values and a policy, beginning with zero values and a random policy. -/
def qLearn (environment : Environment S A R) (settings : LearnerSettings R) (source : G) :
    Except DrawError (Learned S A R) × G :=
  let (policy, source) := environment.randomPolicy source
  qLearnFrom environment settings settings.episodes settings.exploration []
    ⟨environment.zeroValues, policy⟩ source

end MarkovDecision
