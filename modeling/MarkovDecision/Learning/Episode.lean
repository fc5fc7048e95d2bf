import MarkovDecision.Learning.Environment
import MarkovDecision.Learning.Settings

/-!
# Episodes

An episode walks from the start until a step comes to the goal, no action is left, or the limit on
steps is reached.  A learner keeps some memory along the way, from which its policy is taken and
which it updates after each visit of a state; what it remembers after the last episode is the
result.
-/

namespace MarkovDecision

/-- One step of an episode: the state and the action taken in it, the reward and the next
state. -/
structure Visit (S A R : Type) where
  state : S
  action : A
  reward : R
  next : S

/-- The visits of an episode in order, and whether the last of them came to the goal. -/
structure Episode (S A R : Type) where
  visits : List (Visit S A R)
  arrived : Bool

namespace Episode

variable {S A R : Type}

def steps (episode : Episode S A R) : Nat :=
  episode.visits.length

def totalReward [Number R] (episode : Episode S A R) : R :=
  episode.visits.foldl (fun total visit => total + visit.reward) 0

/-- Whether the episode ended before it came to the goal. -/
def truncated (episode : Episode S A R) : Bool :=
  !episode.arrived

end Episode

/-- What a learner has found: action values, a policy, and the episodes it learned from. -/
structure Learned (S A R : Type) [Ord S] [Ord A] where
  values : ActionValues S A R
  policy : Policy S A
  episodes : List (Episode S A R)

/-- The action values and the policy that a learner works with. -/
structure Memory (S A R : Type) [Ord S] [Ord A] where
  values : ActionValues S A R
  policy : Policy S A

variable {S A R G : Type} [Ord S] [Ord A] [Number R] [RandomSource G]

namespace Memory

/-- Changes the value of an action and makes the policy of the state greedy again. -/
def update (memory : Memory S A R) (state : S) (action : A) (change : R → R) :
    Memory S A R :=
  match memory.values[state]? with
  | none => memory
  | some values =>
    let values := values.alter action fun value? => some (change (value?.getD 0))
    { values := memory.values.insert state values
      policy := match greedyAction? values with
        | some best => memory.policy.insert state best
        | none => memory.policy }

end Memory

namespace Environment

/-- Walks on from a state for at most the given number of steps.  The visits so far are kept
newest first. -/
def walk (environment : Environment S A R) (exploration : R)
    (learn : Memory S A R → Visit S A R → Memory S A R) :
    Nat → S → List (Visit S A R) → Memory S A R → G →
      Except DrawError (Episode S A R × Memory S A R) × G
  | 0, _, visits, memory, source => (.ok (⟨visits.reverse, false⟩, memory), source)
  | steps + 1, state, visits, memory, source =>
    match environment.chooseAction state memory.policy exploration source with
    | (none, source) => (.ok (⟨visits.reverse, false⟩, memory), source)
    | (some action, source) =>
      match environment.sampleStep state action source with
      | (.error error, source) => (.error error, source)
      | (.ok none, source) => (.ok (⟨visits.reverse, false⟩, memory), source)
      | (.ok (some step), source) =>
        let visit := ⟨state, action, step.reward, step.next⟩
        let memory := learn memory visit
        if step.done then (.ok (⟨(visit :: visits).reverse, true⟩, memory), source)
        else walk environment exploration learn steps step.next (visit :: visits) memory source

end Environment

end MarkovDecision
