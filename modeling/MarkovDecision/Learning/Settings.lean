import MarkovDecision.Number

/-!
# Learning settings

The numbers that steer the learners, and the exploration rate, which falls from episode to episode
down to a floor.
-/

namespace MarkovDecision

structure LearnerSettings (R : Type) where
  /-- Learning rate, of Q-learning only. -/
  learningRate : R
  /-- Discount factor. -/
  discount : R
  /-- Exploration rate of the first episode. -/
  exploration : R
  /-- The exploration rate does not fall below this. -/
  explorationFloor : R
  /-- What the exploration rate is multiplied by after each episode. -/
  explorationDecay : R
  /-- Number of episodes, or of sweeps for value iteration. -/
  episodes : Nat
  /-- Number of steps after which an episode is cut off. -/
  maxSteps : Nat

/-- The exploration rate of the episode after one with the given rate. -/
def LearnerSettings.decay {R : Type} [Number R] (settings : LearnerSettings R) (rate : R) : R :=
  Number.larger settings.explorationFloor (rate * settings.explorationDecay)

end MarkovDecision
