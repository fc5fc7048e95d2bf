import MarkovDecision.Learning.MonteCarlo
import MarkovDecision.Proofs.Learning.Updates

/-!
# Courses of learning

Both learners run through their episodes alike.  They differ in what a visit teaches at once and in
what is made of the visits of an episode when it has ended; `Learner` has these two as its fields.

`Environment.Walks` and `Learner.Session` tell rule by rule how an episode and a whole session go.
Every action that is taken is one of the actions of its state, and there is no rule for an action
that leads nowhere.  Every run goes by these rules, or else it ends with an error because some
distribution of the model cannot be drawn from.
-/

namespace MarkovDecision

open Std (TreeMap TransOrd)

variable {S A R G N : Type} [Ord S] [Ord A] [Number R] [RandomSource G]

theorem not_contains_of_keys_eq_nil {K V : Type} [Ord K] [TransOrd K] {table : TreeMap K V}
    (noKeys : table.keys = []) (key : K) : ¬table.contains key = true := by
  have isEmpty : table.isEmpty = true := by
    rw [← TreeMap.isEmpty_keys, noKeys]
    rfl
  simp [TreeMap.isEmpty_iff_forall_contains.mp isEmpty key]

/-- Some distribution of the model cannot be drawn from. -/
def Model.Undrawable (model : Model S A R) (error : DrawError) : Prop :=
  ∃ (state : S) (action : A) (distribution : Distribution S R),
    (model.actions state)[action]? = some distribution ∧
      cumulatedWeights distribution.values = .error error

namespace Environment

variable {environment : Environment S A R} {exploration : R} {policy : Policy S A} {state : S}
  {source : G}

section Choosing

variable [TransOrd A]

theorem contains_of_chooseAction
    (legal : ∀ action, policy[state]? = some action →
      (environment.model.actions state).contains action = true) {action : A}
    (chosen : (environment.chooseAction state policy exploration source).1 = some action) :
    (environment.model.actions state).contains action = true := by
  unfold chooseAction at chosen
  dsimp only at chosen
  split at chosen
  · rename_i planned fromPolicy
    cases chosen
    split at fromPolicy
    · exact legal action fromPolicy
    · cases fromPolicy
  · exact TreeMap.mem_of_mem_keys (mem_of_drawEntry chosen)

theorem not_contains_of_chooseAction
    (idle : (environment.chooseAction state policy exploration source).1 = none) (action : A) :
    ¬(environment.model.actions state).contains action = true := by
  unfold chooseAction at idle
  dsimp only at idle
  split at idle
  · cases idle
  · exact not_contains_of_keys_eq_nil ((drawEntry_eq_none_iff _ _).mp idle) action

/-- A step is sampled for every action of a state, unless its distribution cannot be drawn from. -/
theorem sampleStep_cases {action : A}
    (legal : (environment.model.actions state).contains action = true) (source : G) :
    (∃ error, environment.sampleStep state action source = (.error error, source) ∧
      environment.model.Undrawable error) ∨
      ∃ step rest, environment.sampleStep state action source = (.ok (some step), rest) := by
  obtain ⟨distribution, offered⟩ := Option.isSome_iff_exists.mp
    (TreeMap.contains_eq_isSome_getElem?.symm.trans legal)
  unfold sampleStep
  simp only [offered]
  rcases drawState_cases distribution source with ⟨error, failed, drawn⟩ | ⟨next, rest, drawn⟩
  · exact Or.inl ⟨error, by rw [drawn], state, action, distribution, offered, failed⟩
  · exact Or.inr ⟨_, rest, by rw [drawn]⟩

end Choosing

/-- A step of an episode: the action is chosen from those of the state, and the step that is
sampled for it leads on. -/
structure Acts (environment : Environment S A R) (exploration : R) (state : S) (policy : Policy S A)
    (source : G) (visit : Visit S A R) (done : Bool) (rest : G) : Prop where
  state_eq : visit.state = state
  legal : (environment.model.actions state).contains visit.action = true
  taken : ∃ middle, environment.chooseAction state policy exploration source =
      (some visit.action, middle) ∧
    environment.sampleStep state visit.action middle =
      (.ok (some ⟨visit.next, visit.reward, done⟩), rest)

/-- How an episode goes on from a state for at most a number of steps: its visits, whether it
arrives, and the memory that it leaves. -/
inductive Walks (environment : Environment S A R) (exploration : R)
    (learn : Memory S A R → Visit S A R → Memory S A R) :
    Nat → S → Memory S A R → G → List (Visit S A R) → Bool → Memory S A R → G → Prop
  /-- The limit on steps is reached. -/
  | cutOff {state : S} {memory : Memory S A R} {source : G} :
      Walks environment exploration learn 0 state memory source [] false memory source
  /-- The state has no actions. -/
  | stuck {steps : Nat} {state : S} {memory : Memory S A R} {source rest : G}
      (idle : environment.chooseAction state memory.policy exploration source = (none, rest))
      (noActions : ∀ action, ¬(environment.model.actions state).contains action = true) :
      Walks environment exploration learn (steps + 1) state memory source [] false memory rest
  /-- The step comes to the goal. -/
  | arrives {steps : Nat} {state : S} {memory : Memory S A R} {source rest : G}
      {visit : Visit S A R}
      (acts : environment.Acts exploration state memory.policy source visit true rest) :
      Walks environment exploration learn (steps + 1) state memory source [visit] true
        (learn memory visit) rest
  | onward {steps : Nat} {state : S} {memory final : Memory S A R} {source middle rest : G}
      {visit : Visit S A R} {visits : List (Visit S A R)} {arrived : Bool}
      (acts : environment.Acts exploration state memory.policy source visit false middle)
      (later : Walks environment exploration learn steps visit.next (learn memory visit) middle
        visits arrived final rest) :
      Walks environment exploration learn (steps + 1) state memory source (visit :: visits) arrived
        final rest

variable {learn : Memory S A R → Visit S A R → Memory S A R} {steps : Nat}
  {memory final : Memory S A R} {rest : G}

theorem Acts.genuine {visit : Visit S A R} {done : Bool}
    (acts : environment.Acts exploration state policy source visit done rest) :
    environment.Genuine visit := by
  obtain ⟨rfl, -, middle, -, sampled⟩ := acts
  exact genuine_of_sampleStep sampled

theorem Acts.done_eq {visit : Visit S A R} {done : Bool}
    (acts : environment.Acts exploration state policy source visit done rest) :
    done = sameLabel visit.next environment.goal := by
  obtain ⟨-, -, middle, -, sampled⟩ := acts
  unfold sampleStep at sampled
  split at sampled
  · cases sampled
  · split at sampled
    · cases sampled
    · simp only [Prod.mk.injEq, Except.ok.injEq, Option.some.injEq, Step.mk.injEq] at sampled
      obtain ⟨⟨rfl, -, isDone⟩, -⟩ := sampled
      exact isDone.symm

section Walking

variable {visits : List (Visit S A R)} {arrived : Bool}
  (walks : environment.Walks exploration learn steps state memory source visits arrived final rest)
include walks

theorem Walks.length_le : visits.length ≤ steps := by
  induction walks with
  | cutOff => exact Nat.le_refl _
  | stuck => exact Nat.zero_le _
  | arrives => simp
  | onward _ _ ih => exact Nat.succ_le_succ ih

theorem Walks.final_eq : final = visits.foldl learn memory := by
  induction walks with
  | cutOff => rfl
  | stuck => rfl
  | arrives => rfl
  | onward _ _ ih => exact ih

theorem Walks.genuine : ∀ visit ∈ visits, environment.Genuine visit := by
  induction walks with
  | cutOff => simp
  | stuck => simp
  | arrives acts => simpa using acts.genuine
  | onward acts _ ih => exact List.forall_mem_cons.mpr ⟨acts.genuine, ih⟩

theorem Walks.apart_from_goal (apart : sameLabel state environment.goal = false) :
    ∀ visit ∈ visits, sameLabel visit.state environment.goal = false := by
  induction walks with
  | cutOff => simp
  | stuck => simp
  | arrives acts => simpa [acts.state_eq] using apart
  | onward acts _ ih =>
      rw [List.forall_mem_cons, acts.state_eq]
      exact ⟨apart, ih acts.done_eq.symm⟩

end Walking

variable (exploration) in
/-- An episode goes by the rules, or it ends with an error because some distribution cannot be drawn
from.  What is learned on the way must keep the memory in order, since the policy is consulted in
every state. -/
theorem walk_cases [TransOrd A]
    (keeps : ∀ {memory visit}, InOrder environment.model memory → environment.Genuine visit →
      InOrder environment.model (learn memory visit))
    (inOrder : InOrder environment.model memory) (steps : Nat) (state : S)
    (visits : List (Visit S A R)) (source : G) :
    (∃ error rest, environment.walk exploration learn steps state visits memory source =
        (.error error, rest) ∧ environment.model.Undrawable error) ∨
      ∃ added arrived final rest,
        environment.walk exploration learn steps state visits memory source =
          (.ok (⟨visits.reverse ++ added, arrived⟩, final), rest) ∧
        environment.Walks exploration learn steps state memory source added arrived final rest := by
  induction steps generalizing state visits memory source with
  | zero => exact Or.inr ⟨[], false, memory, source, by rw [List.append_nil]; rfl, Walks.cutOff⟩
  | succ steps ih =>
      unfold walk
      rcases chosen : environment.chooseAction state memory.policy exploration source with
        ⟨action | action, middle⟩
      · refine Or.inr ⟨[], false, memory, middle, by rw [List.append_nil], ?_⟩
        exact Walks.stuck chosen (not_contains_of_chooseAction (congrArg Prod.fst chosen))
      · have legal := contains_of_chooseAction (fun action => inOrder.legal)
          (congrArg Prod.fst chosen)
        rcases sampleStep_cases legal middle with
          ⟨error, failed, undrawable⟩ | ⟨step, rest, sampled⟩
        · exact Or.inl ⟨error, middle, by simp only [failed], undrawable⟩
        · simp only [sampled]
          have acts : environment.Acts exploration state memory.policy source
              ⟨state, action, step.reward, step.next⟩ step.done rest :=
            ⟨rfl, legal, middle, chosen, sampled⟩
          cases isDone : step.done with
          | true =>
              rw [isDone] at acts
              exact Or.inr ⟨[_], true, _, rest, by simp, Walks.arrives acts⟩
          | false =>
              rw [isDone] at acts
              rcases ih (keeps inOrder acts.genuine) step.next
                  (⟨state, action, step.reward, step.next⟩ :: visits) rest with
                failed | ⟨added, arrived, final, last, walked, later⟩
              · exact Or.inl failed
              · refine Or.inr ⟨_ :: added, arrived, final, last, ?_, Walks.onward acts later⟩
                simp only [Bool.false_eq_true, if_false, walked, List.reverse_cons,
                  List.append_assoc, List.singleton_append]

/-- Assigns any action to a state that has actions. -/
def assign (environment : Environment S A R) (found : Policy S A × G) (state : S) :
    Policy S A × G :=
  match drawEntry (environment.model.actions state).keys found.2 with
  | (some action, source) => (found.1.insert state action, source)
  | (none, source) => (found.1, source)

theorem getElem?_assign [TransOrd S] (environment : Environment S A R) (found : Policy S A × G)
    (state other : S) :
    (environment.assign found state).1[other]? =
      if compare state other = .eq then
        (drawEntry (environment.model.actions state).keys found.2).1.or found.1[other]?
      else found.1[other]? := by
  unfold assign
  rcases drawEntry (environment.model.actions state).keys found.2 with ⟨action | action, source⟩
  · simp
  · simp only [TreeMap.getElem?_insert, Option.some_or]

/-- What a learner begins with: zero values and a random policy. -/
def firstMemory (environment : Environment S A R) (source : G) : Memory S A R :=
  ⟨environment.zeroValues, (environment.randomPolicy source).1⟩

section Starting

variable [TransOrd S] [TransOrd A]

theorem contains_of_foldl_assign (states : List S) (source : G) {state : S} {action : A}
    (assigned : (states.foldl environment.assign (∅, source)).1[state]? = some action) :
    (environment.model.actions state).contains action = true := by
  have isLegal : ∀ state action, (states.foldl environment.assign (∅, source)).1[state]? =
      some action → (environment.model.actions state).contains action = true := by
    refine List.foldlRecOn (motive := fun found : Policy S A × G => ∀ state action,
      found.1[state]? = some action → (environment.model.actions state).contains action = true)
      states _ (by simp) ?_
    intro found legal listed _ state action isAssigned
    rw [getElem?_assign] at isAssigned
    split at isAssigned
    · rename_i same
      rcases Option.or_eq_some_iff.mp isAssigned with drawn | ⟨-, before⟩
      · rw [← environment.model.actions_congr same]
        exact TreeMap.mem_of_mem_keys (mem_of_drawEntry drawn)
      · exact legal state action before
    · exact legal state action isAssigned
  exact isLegal state action assigned

theorem contains_foldl_assign {states : List S} {listed state : S} (member : listed ∈ states)
    (same : compare listed state = .eq) {action : A}
    (offered : (environment.model.actions state).contains action = true)
    (found : Policy S A × G) :
    (states.foldl environment.assign found).1.contains state = true := by
  refine foldl_of_mem (motive := fun found : Policy S A × G => found.1.contains state = true)
    ?_ member ?_ found
  · intro other _ before assigned
    rw [TreeMap.contains_eq_isSome_getElem?] at assigned ⊢
    rw [getElem?_assign]
    split
    · rw [Option.isSome_or, assigned, Bool.or_true]
    · exact assigned
  · intro before
    rw [← environment.model.actions_congr same] at offered
    have isDrawn : (drawEntry (environment.model.actions listed).keys before.2).1 ≠ none :=
      fun nothing =>
        not_contains_of_keys_eq_nil ((drawEntry_eq_none_iff _ _).mp nothing) action offered
    rw [TreeMap.contains_eq_isSome_getElem?, getElem?_assign, if_pos same, Option.isSome_or,
      Option.isSome_iff_ne_none.mpr isDrawn, Bool.true_or]

theorem inOrder_firstMemory (wellFormed : environment.model.WellFormed) (source : G) :
    InOrder environment.model (environment.firstMemory source) := by
  have legal {state : S} {action : A}
      (assigned : (environment.randomPolicy source).1[state]? = some action) :
      (environment.model.actions state).contains action = true :=
    contains_of_foldl_assign environment.model.states.toList source assigned
  refine ⟨covers_zeroValues wellFormed, ?_, legal⟩
  intro state
  constructor
  · intro decided
    rw [TreeMap.contains_eq_isSome_getElem?] at decided
    obtain ⟨action, assigned⟩ := Option.isSome_iff_exists.mp decided
    exact ⟨action, legal assigned⟩
  · rintro ⟨action, contained⟩
    obtain ⟨offer, offered, -⟩ := ActionTable.exists_offer contained
    obtain ⟨listed, member, same⟩ := wellFormed.listed state (Model.contains_of_offer offered)
    exact contains_foldl_assign member same contained (∅, source)

end Starting

end Environment

/-- What tells learners apart: what a visit teaches at once, and what is made of the visits of an
episode that has ended, with notes that are kept from episode to episode. -/
structure Learner (S A R N : Type) [Ord S] [Ord A] where
  learn : Memory S A R → Visit S A R → Memory S A R
  settle : List (Visit S A R) → N × Memory S A R → N × Memory S A R

/-- Q-learning learns from every visit at once. -/
def qLearner (settings : LearnerSettings R) : Learner S A R Unit where
  learn := learnVisit settings
  settle _ found := found

/-- Monte Carlo control learns from whole episodes, and notes how often each action was taken. -/
def monteCarloLearner (settings : LearnerSettings R) : Learner S A R (VisitCounts S A) where
  learn memory _ := memory
  settle visits found :=
    let counts := visits.foldl countVisit found.1
    (counts, (visits.reverse.foldl (backUp settings.discount counts) (0, found.2)).2)

namespace Learner

/-- Learns from as many episodes as are left. -/
def runFrom (learner : Learner S A R N) (environment : Environment S A R)
    (settings : LearnerSettings R) :
    Nat → R → List (Episode S A R) → N × Memory S A R → G → Except DrawError (Learned S A R) × G
  | 0, _, episodes, found, source =>
    (.ok ⟨found.2.values, found.2.policy, episodes.reverse⟩, source)
  | count + 1, exploration, episodes, found, source =>
    match environment.walk exploration learner.learn settings.maxSteps environment.start []
        found.2 source with
    | (.error error, source) => (.error error, source)
    | (.ok (episode, memory), source) =>
      learner.runFrom environment settings count (settings.decay exploration)
        (episode :: episodes) (learner.settle episode.visits (found.1, memory)) source

def run (learner : Learner S A R N) (environment : Environment S A R)
    (settings : LearnerSettings R) (notes : N) (source : G) :
    Except DrawError (Learned S A R) × G :=
  let (policy, source) := environment.randomPolicy source
  learner.runFrom environment settings settings.episodes settings.exploration []
    (notes, ⟨environment.zeroValues, policy⟩) source

theorem qLearn_eq_run (environment : Environment S A R) (settings : LearnerSettings R)
    (source : G) : qLearn environment settings source =
      (qLearner settings).run environment settings () source := by
  have sameFrom (count : Nat) (exploration : R) (episodes : List (Episode S A R))
      (memory : Memory S A R) (source : G) :
      qLearnFrom environment settings count exploration episodes memory source =
        (qLearner settings).runFrom environment settings count exploration episodes ((), memory)
          source := by
    induction count generalizing exploration episodes memory source with
    | zero => rfl
    | succ count ih =>
        unfold qLearnFrom runFrom
        rcases walked : environment.walk exploration (learnVisit settings) settings.maxSteps
          environment.start [] memory source with ⟨error | ⟨episode, reached⟩, rest⟩
        · simp only [qLearner, walked]
        · simp only [qLearner, walked, ih]
  exact sameFrom _ _ _ _ _

theorem monteCarlo_eq_run (environment : Environment S A R) (settings : LearnerSettings R)
    (source : G) : monteCarlo environment settings source =
      (monteCarloLearner settings).run environment settings ∅ source := by
  have sameFrom (count : Nat) (exploration : R) (episodes : List (Episode S A R))
      (counts : VisitCounts S A) (memory : Memory S A R) (source : G) :
      monteCarloFrom environment settings count exploration episodes counts memory source =
        (monteCarloLearner settings).runFrom environment settings count exploration episodes
          (counts, memory) source := by
    induction count generalizing exploration episodes counts memory source with
    | zero => rfl
    | succ count ih =>
        unfold monteCarloFrom runFrom
        rcases walked : environment.walk exploration (fun memory _ => memory) settings.maxSteps
          environment.start [] memory source with ⟨error | ⟨episode, reached⟩, rest⟩
        · simp only [monteCarloLearner, walked]
        · simp only [monteCarloLearner, walked, ih]
  exact sameFrom _ _ _ _ _ _

/-- How a session goes on for a number of episodes: the episodes, and the notes and the memory that
they leave. -/
inductive Session (learner : Learner S A R N) (environment : Environment S A R)
    (settings : LearnerSettings R) :
    Nat → R → N × Memory S A R → G → List (Episode S A R) → N × Memory S A R → G → Prop
  | done {exploration : R} {found : N × Memory S A R} {source : G} :
      Session learner environment settings 0 exploration found source [] found source
  | episode {count : Nat} {exploration : R} {notes : N} {memory reached : Memory S A R}
      {source middle rest : G} {visits : List (Visit S A R)} {arrived : Bool}
      {episodes : List (Episode S A R)} {final : N × Memory S A R}
      (walks : environment.Walks exploration learner.learn settings.maxSteps environment.start
        memory source visits arrived reached middle)
      (later : Session learner environment settings count (settings.decay exploration)
        (learner.settle visits (notes, reached)) middle episodes final rest) :
      Session learner environment settings (count + 1) exploration (notes, memory) source
        (⟨visits, arrived⟩ :: episodes) final rest

/-- A learner changes its memory by updates at the visits of its episodes, and in no other way. -/
structure Revising (learner : Learner S A R N) : Prop where
  learn : ∀ memory visit, learner.learn memory visit = memory ∨
    Updates visit memory (learner.learn memory visit)
  settle : ∀ visits notes memory, ∃ order : List (Visit S A R),
    (∀ visit, visit ∈ order ↔ visit ∈ visits) ∧
      Revises order memory (learner.settle visits (notes, visits.foldl learner.learn memory)).2

theorem updates_learnVisit (settings : LearnerSettings R) (memory : Memory S A R)
    (visit : Visit S A R) : Updates visit memory (learnVisit settings memory visit) := by
  unfold learnVisit
  exact ⟨_, rfl⟩

theorem updates_backUp (discount : R) (counts : VisitCounts S A) (following : R × Memory S A R)
    (visit : Visit S A R) :
    Updates visit following.2 (backUp discount counts following visit).2 := by
  unfold backUp
  dsimp only
  exact ⟨_, rfl⟩

theorem revising_qLearner (settings : LearnerSettings R) :
    (qLearner settings : Learner S A R Unit).Revising where
  learn memory visit := Or.inr (updates_learnVisit settings memory visit)
  settle visits notes memory := by
    refine ⟨visits, fun _ => Iff.rfl, ?_⟩
    induction visits generalizing memory with
    | nil => exact Revises.none
    | cons visit visits ih => exact Revises.update (updates_learnVisit settings memory visit) (ih _)

theorem revising_monteCarloLearner (settings : LearnerSettings R) :
    (monteCarloLearner settings : Learner S A R (VisitCounts S A)).Revising where
  learn memory visit := Or.inl rfl
  settle visits notes memory := by
    have unchanged : visits.foldl (monteCarloLearner settings).learn memory = memory :=
      List.foldl_fixed visits
    have backwards (counts : VisitCounts S A) (following : R × Memory S A R)
        (visits : List (Visit S A R)) : Revises visits following.2
          (visits.foldl (backUp settings.discount counts) following).2 := by
      induction visits generalizing following with
      | nil => exact Revises.none
      | cons visit visits ih =>
          exact Revises.update (updates_backUp settings.discount counts following visit) (ih _)
    refine ⟨visits.reverse, fun _ => List.mem_reverse, ?_⟩
    rw [unchanged]
    exact backwards _ (0, memory) _

section Going

variable [TransOrd S] [TransOrd A] {learner : Learner S A R N} {environment : Environment S A R}
  {settings : LearnerSettings R} (revising : learner.Revising)

omit [RandomSource G] in
include revising in
theorem Revising.inOrder_learn {memory : Memory S A R} {visit : Visit S A R}
    (inOrder : InOrder environment.model memory) (genuine : environment.Genuine visit) :
    InOrder environment.model (learner.learn memory visit) := by
  rcases revising.learn memory visit with unchanged | ⟨change, updated⟩
  · rw [unchanged]
    exact inOrder
  · rw [updated]
    exact inOrder.update genuine.contains_action change

omit [TransOrd S] [TransOrd A] in
include revising in
/-- A learner settles an episode by updates at its visits. -/
theorem Revising.exists_revises {exploration : R} {memory reached : Memory S A R} {source rest : G}
    {visits : List (Visit S A R)} {arrived : Bool}
    (walks : environment.Walks exploration learner.learn settings.maxSteps environment.start memory
      source visits arrived reached rest) (notes : N) :
    ∃ order : List (Visit S A R), (∀ visit, visit ∈ order ↔ visit ∈ visits) ∧
      Revises order memory (learner.settle visits (notes, reached)).2 := by
  rw [walks.final_eq]
  exact revising.settle visits notes memory

omit [TransOrd S] [TransOrd A] in
include revising in
theorem Session.exists_revises {count : Nat} {exploration : R} {found final : N × Memory S A R}
    {source rest : G} {episodes : List (Episode S A R)}
    (session : learner.Session environment settings count exploration found source episodes final
      rest) :
    ∃ order : List (Visit S A R), (∀ visit, visit ∈ order ↔
      visit ∈ episodes.flatMap Episode.visits) ∧ Revises order found.2 final.2 := by
  induction session with
  | done => exact ⟨[], by simp, Revises.none⟩
  | @episode _ _ notes _ _ _ _ _ _ _ _ _ walks _ ih =>
      obtain ⟨order, sameVisits, revises⟩ := revising.exists_revises walks notes
      obtain ⟨orderLater, sameLater, revisesLater⟩ := ih
      refine ⟨order ++ orderLater, ?_, revises.append revisesLater⟩
      intro visit
      rw [List.mem_append, List.flatMap_cons, List.mem_append, sameVisits, sameLater]

include revising in
theorem runFrom_cases (notes : N) {memory : Memory S A R}
    (inOrder : InOrder environment.model memory)
    (count : Nat) (exploration : R) (episodes : List (Episode S A R)) (source : G) :
    (∃ error rest, learner.runFrom environment settings count exploration episodes (notes, memory)
        source = (.error error, rest) ∧ environment.model.Undrawable error) ∨
      ∃ added final rest, learner.runFrom environment settings count exploration episodes
          (notes, memory) source =
            (.ok ⟨final.2.values, final.2.policy, episodes.reverse ++ added⟩, rest) ∧
        learner.Session environment settings count exploration (notes, memory) source added final
          rest := by
  induction count generalizing exploration episodes notes memory source with
  | zero =>
      refine Or.inr ⟨[], (notes, memory), source, ?_, Session.done⟩
      rw [List.append_nil, runFrom]
  | succ count ih =>
      unfold runFrom
      rcases Environment.walk_cases exploration revising.inOrder_learn inOrder
          settings.maxSteps environment.start [] source with
        ⟨error, rest, walked, undrawable⟩ | ⟨visits, arrived, reached, middle, walked, walks⟩
      · exact Or.inl ⟨error, rest, by simp only [walked], undrawable⟩
      · simp only [walked, List.reverse_nil, List.nil_append]
        obtain ⟨order, sameVisits, revises⟩ := revising.exists_revises walks notes
        have settled := revises.inOrder (fun visit member =>
          (walks.genuine visit ((sameVisits visit).mp member)).contains_action) inOrder
        rcases ih _ settled (settings.decay exploration) (⟨visits, arrived⟩ :: episodes) middle with
          failed | ⟨added, final, rest, ran, later⟩
        · exact Or.inl failed
        · refine Or.inr ⟨_ :: added, final, rest, ?_, Session.episode walks later⟩
          rw [ran, List.reverse_cons, List.append_assoc, List.singleton_append]

include revising in
/-- A learner goes by the rules from the memory that it begins with, or it ends with an error
because some distribution cannot be drawn from. -/
theorem run_cases (wellFormed : environment.model.WellFormed) (settings : LearnerSettings R)
    (notes : N) (source : G) :
    (∃ error rest, learner.run environment settings notes source = (.error error, rest) ∧
        environment.model.Undrawable error) ∨
      ∃ learned last rest, learner.run environment settings notes source = (.ok learned, rest) ∧
        learner.Session environment settings settings.episodes settings.exploration
          (notes, environment.firstMemory source) (environment.randomPolicy source).2
          learned.episodes (last, ⟨learned.values, learned.policy⟩) rest := by
  rcases runFrom_cases revising notes (environment.inOrder_firstMemory wellFormed source)
      settings.episodes settings.exploration [] (environment.randomPolicy source).2 with
    failed | ⟨added, final, rest, ran, session⟩
  · exact Or.inl failed
  · exact Or.inr ⟨_, final.1, rest, ran, session⟩

include revising in
theorem session_of_run (wellFormed : environment.model.WellFormed) {notes : N} {source rest : G}
    {learned : Learned S A R}
    (ran : learner.run environment settings notes source = (.ok learned, rest)) :
    ∃ last, learner.Session environment settings settings.episodes settings.exploration
      (notes, environment.firstMemory source) (environment.randomPolicy source).2 learned.episodes
      (last, ⟨learned.values, learned.policy⟩) rest := by
  rcases run_cases revising wellFormed settings notes source with
    ⟨error, _, failed, -⟩ | ⟨other, last, _, ranOther, session⟩
  · cases ran.symm.trans failed
  · cases ran.symm.trans ranOther
    exact ⟨last, session⟩

end Going

end Learner

end MarkovDecision
