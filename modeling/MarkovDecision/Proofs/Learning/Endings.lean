import MarkovDecision.Proofs.Learning.Answers

/-!
# How episodes end

An episode ends in one of three ways.  Its last step comes to the goal; or it is cut off, because it
has made all the steps that it may; or it strands, with steps left, in a state without actions.  It
is marked as truncated unless it arrives.  So the mark tells that an episode was cut off, but only
of episodes that do not strand: those are marked as well, although no limit has ended them.
-/

namespace MarkovDecision

open Std (TreeMap TransOrd)

variable {S A R G N : Type} [Ord S]

/-- The state that visits lead to from a state. -/
def stateAfter (state : S) (visits : List (Visit S A R)) : S :=
  visits.foldl (fun _ visit => visit.next) state

namespace Environment

/-- The step of a visit comes to the goal. -/
def Lands (environment : Environment S A R) (visit : Visit S A R) : Prop :=
  sameLabel visit.next environment.goal = true

instance (environment : Environment S A R) (visit : Visit S A R) :
    Decidable (environment.Lands visit) :=
  inferInstanceAs (Decidable (_ = true))

/-- The last step of an episode comes to the goal, and no other does. -/
def Arrives (environment : Environment S A R) (episode : Episode S A R) : Prop :=
  ∃ earlier last, episode.visits = earlier ++ [last] ∧ environment.Lands last ∧
    ∀ visit ∈ earlier, ¬environment.Lands visit

/-- An episode makes as many steps as the limit allows, and none of them comes to the goal. -/
structure CutOff (environment : Environment S A R) (limit : Nat) (episode : Episode S A R) :
    Prop where
  steps_eq : episode.steps = limit
  misses : ∀ visit ∈ episode.visits, ¬environment.Lands visit

section Longer

variable {environment : Environment S A R} {episode : Episode S A R} {limit : Nat}
  {visit : Visit S A R} {visits : List (Visit S A R)} {arrived : Bool}

theorem Arrives.not_forall_misses (arrives : environment.Arrives episode) :
    ¬∀ visit ∈ episode.visits, ¬environment.Lands visit := by
  obtain ⟨earlier, last, visitsEq, lands, -⟩ := arrives
  intro misses
  exact misses last (by rw [visitsEq]; simp) lands

theorem Arrives.cons (arrives : environment.Arrives ⟨visits, arrived⟩)
    (misses : ¬environment.Lands visit) : environment.Arrives ⟨visit :: visits, arrived⟩ := by
  obtain ⟨earlier, last, visitsEq, lands, earlierMiss⟩ := arrives
  exact ⟨visit :: earlier, last, congrArg (visit :: ·) visitsEq, lands,
    List.forall_mem_cons.mpr ⟨misses, earlierMiss⟩⟩

theorem CutOff.cons (cutOff : environment.CutOff limit ⟨visits, arrived⟩)
    (misses : ¬environment.Lands visit) :
    environment.CutOff (limit + 1) ⟨visit :: visits, arrived⟩ where
  steps_eq := congrArg (· + 1) cutOff.steps_eq
  misses := List.forall_mem_cons.mpr ⟨misses, cutOff.misses⟩

end Longer

variable [Ord A] [Number R]

/-- An episode from a state comes to a state without actions before it has made as many steps as the
limit allows, and none of them comes to the goal. -/
structure Strands (environment : Environment S A R) (limit : Nat) (start : S)
    (episode : Episode S A R) : Prop where
  steps_lt : episode.steps < limit
  misses : ∀ visit ∈ episode.visits, ¬environment.Lands visit
  noActions : (environment.model.actions (stateAfter start episode.visits)).isEmpty = true

instance (environment : Environment S A R) (limit : Nat) (start : S) (episode : Episode S A R) :
    Decidable (environment.Strands limit start episode) :=
  decidable_of_iff (episode.steps < limit ∧
      (∀ visit ∈ episode.visits, ¬environment.Lands visit) ∧
      (environment.model.actions (stateAfter start episode.visits)).isEmpty = true)
    ⟨fun ⟨stepsLt, misses, noActions⟩ => ⟨stepsLt, misses, noActions⟩,
      fun strands => ⟨strands.steps_lt, strands.misses, strands.noActions⟩⟩

/-- The ways in which an episode from a state ends, with the mark that it gets. -/
inductive Ends (environment : Environment S A R) (limit : Nat) (start : S)
    (episode : Episode S A R) : Prop
  | arrives (unmarked : episode.truncated = false) (arrives : environment.Arrives episode)
  | cutOff (marked : episode.truncated = true) (cutOff : environment.CutOff limit episode)
  | strands (marked : episode.truncated = true)
      (strands : environment.Strands limit start episode)

/-- What the mark of an episode tells about its end. -/
structure Marks (environment : Environment S A R) (limit : Nat) (episode : Episode S A R) :
    Prop where
  /-- Unmarked are the episodes that arrive. -/
  unmarked_iff : episode.truncated = false ↔ environment.Arrives episode
  /-- The mark stands for being cut off, unless the episode strands. -/
  cutOff_iff : (episode.truncated = true ↔ environment.CutOff limit episode) ↔
    ¬environment.Strands limit environment.start episode

variable {environment : Environment S A R} {episode : Episode S A R} {limit : Nat} {start : S}

theorem Strands.cons {visit : Visit S A R} {visits : List (Visit S A R)} {arrived : Bool}
    (strands : environment.Strands limit visit.next ⟨visits, arrived⟩)
    (misses : ¬environment.Lands visit) (start : S) :
    environment.Strands (limit + 1) start ⟨visit :: visits, arrived⟩ where
  steps_lt := Nat.succ_lt_succ strands.steps_lt
  misses := List.forall_mem_cons.mpr ⟨misses, strands.misses⟩
  noActions := strands.noActions

theorem CutOff.not_strands (cutOff : environment.CutOff limit episode) :
    ¬environment.Strands limit start episode :=
  fun strands => strands.steps_lt.ne cutOff.steps_eq

theorem Ends.cons {visit : Visit S A R} {visits : List (Visit S A R)} {arrived : Bool}
    (ends : environment.Ends limit visit.next ⟨visits, arrived⟩)
    (misses : ¬environment.Lands visit) (start : S) :
    environment.Ends (limit + 1) start ⟨visit :: visits, arrived⟩ := by
  cases ends with
  | arrives unmarked arrives => exact .arrives unmarked (arrives.cons misses)
  | cutOff marked cutOff => exact .cutOff marked (cutOff.cons misses)
  | strands marked strands => exact .strands marked (strands.cons misses start)

theorem Ends.marks (ends : environment.Ends limit environment.start episode) :
    environment.Marks limit episode := by
  -- The other two ends miss the goal, and only one of them leaves steps to be made.
  cases ends with
  | arrives unmarked arrives =>
      refine ⟨iff_of_true unmarked arrives, iff_of_true (iff_of_false ?_ ?_) ?_⟩
      · exact Bool.eq_false_iff.mp unmarked
      · exact fun cutOff => arrives.not_forall_misses cutOff.misses
      · exact fun strands => arrives.not_forall_misses strands.misses
  | cutOff marked cutOff =>
      refine ⟨iff_of_false ?_ ?_, iff_of_true (iff_of_true marked cutOff) cutOff.not_strands⟩
      · exact ne_false_of_eq_true marked
      · exact fun arrives => arrives.not_forall_misses cutOff.misses
  | strands marked strands =>
      refine ⟨iff_of_false ?_ ?_, iff_of_false ?_ (not_not_intro strands)⟩
      · exact ne_false_of_eq_true marked
      · exact fun arrives => arrives.not_forall_misses strands.misses
      · exact fun meansCutOff => (meansCutOff.mp marked).not_strands strands

variable [RandomSource G] [TransOrd A]

/-- An episode that goes by the rules ends in one of the three ways. -/
theorem Walks.ends {exploration : R} {learn : Memory S A R → Visit S A R → Memory S A R}
    {steps : Nat} {state : S} {memory final : Memory S A R} {source rest : G}
    {visits : List (Visit S A R)} {arrived : Bool}
    (walks : environment.Walks exploration learn steps state memory source visits arrived final
      rest) : environment.Ends steps state ⟨visits, arrived⟩ := by
  induction walks with
  | cutOff => exact .cutOff rfl ⟨rfl, by simp⟩
  | stuck _ noActions =>
      refine .strands rfl ⟨Nat.succ_pos _, by simp, ?_⟩
      exact TreeMap.isEmpty_iff_forall_contains.mpr fun action =>
        Bool.eq_false_iff.mpr (noActions action)
  | @arrives _ _ _ _ _ visit acts =>
      exact .arrives rfl ⟨[], visit, rfl, acts.done_eq.symm, by simp⟩
  | onward acts _ ih => exact ih.cons (Bool.eq_false_iff.mp acts.done_eq.symm) _

end Environment

variable [Ord A] [Number R] [RandomSource G] [TransOrd S] [TransOrd A]

theorem Learner.marks_of_run {learner : Learner S A R N} (revising : learner.Revising)
    {environment : Environment S A R} (wellFormed : environment.model.WellFormed)
    {settings : LearnerSettings R} {notes : N} {source rest : G} {learned : Learned S A R}
    (ran : learner.run environment settings notes source = (.ok learned, rest)) :
    learned.episodes.length = settings.episodes ∧
      ∀ episode ∈ learned.episodes, environment.Marks settings.maxSteps episode := by
  obtain ⟨last, session⟩ := session_of_run revising wellFormed ran
  refine ⟨session.length_eq, fun episode listed => ?_⟩
  obtain ⟨_, _, _, _, _, walks⟩ := session.exists_walks episode listed
  exact walks.ends.marks

/-- Whatever is drawn, Q-learning and Monte Carlo control record every episode.  An episode is not
marked as truncated if and only if its last step comes to the goal and no other does.  That it is
marked if and only if the limit on steps ended it, with no step at the goal, is true of an episode
if and only if it does not strand in a state without actions. -/
theorem learners_mark_episodes {environment : Environment S A R}
    (wellFormed : environment.model.WellFormed) (settings : LearnerSettings R) (source : G) :
    (∀ learned rest, qLearn environment settings source = (.ok learned, rest) →
      learned.episodes.length = settings.episodes ∧
        ∀ episode ∈ learned.episodes, environment.Marks settings.maxSteps episode) ∧
    ∀ learned rest, monteCarlo environment settings source = (.ok learned, rest) →
      learned.episodes.length = settings.episodes ∧
        ∀ episode ∈ learned.episodes, environment.Marks settings.maxSteps episode := by
  constructor
  · intro learned rest isLearned
    rw [Learner.qLearn_eq_run] at isLearned
    exact Learner.marks_of_run (Learner.revising_qLearner settings) wellFormed isLearned
  · intro learned rest isLearned
    rw [Learner.monteCarlo_eq_run] at isLearned
    exact Learner.marks_of_run (Learner.revising_monteCarloLearner settings) wellFormed isLearned

/-- A jump over a ditch is repeated, or ends in the ditch, or comes to the other side. -/
def ditch : Model Nat Nat Rat :=
  ((Model.empty.addTransition 0 0 0 (1 / 2) (-1)).addTransition 0 0 1 (1 / 4) (-1)).addTransition
    0 0 2 (1 / 4) (-1)

theorem wellFormed_ditch : ditch.WellFormed :=
  ((Model.wellFormed_empty.addTransition 0 0 0 (1 / 2) (-1)).addTransition
    0 0 1 (1 / 4) (-1)).addTransition 0 0 2 (1 / 4) (-1)

def acrossDitch : Environment Nat Nat Rat :=
  ⟨ditch, 0, 2⟩

/-- Three episodes of at most two jumps. -/
def threeTries : LearnerSettings Rat :=
  ⟨1 / 2, 1, 1, 1, 1, 3, 2⟩

/-- Words that make the first jump end in the ditch and the second one on the other side; all others
are repeated. -/
def fallThenCross : ListedWords :=
  ⟨[0, 0, 0, 0, 0, 2415919104, 0, 0, 0, 0, 0, 4294967295, 4294967295]⟩

/-- Of each try, how many jumps it made, whether it is marked, and whether it ended in the ditch. -/
def tries (learned : Learned Nat Nat Rat) : List (Nat × Bool × Bool) :=
  learned.episodes.map fun episode =>
    (episode.steps, episode.truncated, decide (acrossDitch.Strands 2 0 episode))

/-- The first try ends in the ditch after one jump, and is marked although it is not cut off; the
second one arrives; the third one is cut off after two jumps. -/
theorem learners_mark_episodes_acrossDitch :
    acrossDitch.model.WellFormed ∧
      (∃ learned rest, qLearn acrossDitch threeTries fallThenCross = (.ok learned, rest) ∧
        tries learned = [(1, true, true), (1, false, false), (2, true, false)] ∧
        ∀ episode ∈ learned.episodes, acrossDitch.Marks 2 episode) ∧
      ∃ learned rest, monteCarlo acrossDitch threeTries fallThenCross = (.ok learned, rest) ∧
        tries learned = [(1, true, true), (1, false, false), (2, true, false)] ∧
        ∀ episode ∈ learned.episodes, acrossDitch.Marks 2 episode := by
  have wellFormed : acrossDitch.model.WellFormed := wellFormed_ditch
  obtain ⟨ofQLearning, ofMonteCarlo⟩ :=
    learners_mark_episodes wellFormed threeTries fallThenCross
  obtain ⟨first, firstRest, firstRan, firstTries⟩ := exists_learned_of
    (qLearn acrossDitch threeTries fallThenCross) (fun learned =>
      tries learned == [(1, true, true), (1, false, false), (2, true, false)]) (by decide +kernel)
  obtain ⟨second, secondRest, secondRan, secondTries⟩ := exists_learned_of
    (monteCarlo acrossDitch threeTries fallThenCross) (fun learned =>
      tries learned == [(1, true, true), (1, false, false), (2, true, false)]) (by decide +kernel)
  exact ⟨wellFormed,
    ⟨first, firstRest, firstRan, eq_of_beq firstTries, (ofQLearning _ _ firstRan).2⟩,
    second, secondRest, secondRan, eq_of_beq secondTries, (ofMonteCarlo _ _ secondRan).2⟩

end MarkovDecision
