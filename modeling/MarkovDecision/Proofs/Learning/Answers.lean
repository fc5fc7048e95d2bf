import MarkovDecision.Proofs.Learning.Sessions
import MarkovDecision.Proofs.Learning.QLearning

/-!
# What a learner answers with

Whatever is drawn, the values that a learner answers with have the states and actions of the model
as their keys, and its policy takes one of the actions of every state that has any.  In the states
in which it has acted, the policy takes the first of the best actions.  The goal ends every
episode, so unless the episodes start there its values are still zero.
-/

namespace MarkovDecision

open Std (TreeMap TransOrd)

variable {S A R G N : Type} [Ord S] [Ord A] [Number R] [RandomSource G]

/-- Two tables of action values have the same states, and the same actions in each of them. -/
structure SameKeys (first second : ActionValues S A R) : Prop where
  contains_eq : ∀ state, first.contains state = second.contains state
  row_contains_eq : ∀ (state : S) (row other : TreeMap A R), first[state]? = some row →
    second[state]? = some other → ∀ action, row.contains action = other.contains action

theorem Covers.sameKeys {model : Model S A R} {first second : ActionValues S A R}
    (covers : Covers model first) (alsoCovers : Covers model second) : SameKeys first second where
  contains_eq state := by
    rw [Bool.eq_iff_iff, covers.contains_iff, alsoCovers.contains_iff]
  row_contains_eq := by
    intro state row other isRow isOther action
    rw [Bool.eq_iff_iff, covers.row_iff isRow, alsoCovers.row_iff isOther]

/-- What holds of the answer of a learner. -/
structure Learner.Accounts (learner : Learner S A R N) (environment : Environment S A R)
    (settings : LearnerSettings R) (notes : N) (source : G) (learned : Learned S A R) (rest : G) :
    Prop where
  /-- Values and policy are those of the model. -/
  inOrder : InOrder environment.model ⟨learned.values, learned.policy⟩
  sameKeys : SameKeys learned.values environment.zeroValues
  /-- Every action that was taken is one of its state, and a step was sampled for it. -/
  session : ∃ last, learner.Session environment settings settings.episodes settings.exploration
    (notes, environment.firstMemory source) (environment.randomPolicy source).2 learned.episodes
    (last, ⟨learned.values, learned.policy⟩) rest
  firstBest : ∀ visit ∈ learned.episodes.flatMap Episode.visits, ∃ row best value,
    learned.values[visit.state]? = some row ∧ learned.policy[visit.state]? = some best ∧
      IsFirstBest row best value
  goal_zero : sameLabel environment.start environment.goal = false →
    ∀ row : TreeMap A R, learned.values[environment.goal]? = some row →
      ∀ entry ∈ row.toList, entry.2 = 0

variable [TransOrd S] [TransOrd A] {learner : Learner S A R N} {environment : Environment S A R}
  {settings : LearnerSettings R} {found final : N × Memory S A R} {source rest : G}
  {episodes : List (Episode S A R)} {count : Nat} {exploration : R}

namespace Learner

section Episodes

variable (session : learner.Session environment settings count exploration found source episodes
  final rest)
include session

omit [TransOrd S] [TransOrd A] in
theorem Session.exists_walks : ∀ episode ∈ episodes,
    ∃ (exploration : R) (memory reached : Memory S A R) (source rest : G),
      environment.Walks exploration learner.learn settings.maxSteps environment.start memory source
        episode.visits episode.arrived reached rest := by
  induction session with
  | done => simp
  | episode walks _ ih => exact List.forall_mem_cons.mpr ⟨⟨_, _, _, _, _, walks⟩, ih⟩

omit [TransOrd S] [TransOrd A] in
theorem Session.genuine : ∀ visit ∈ episodes.flatMap Episode.visits,
    environment.Genuine visit := by
  intro visit member
  obtain ⟨episode, listed, visited⟩ := List.mem_flatMap.mp member
  obtain ⟨_, _, _, _, _, walks⟩ := session.exists_walks episode listed
  exact walks.genuine visit visited

omit [TransOrd S] [TransOrd A] in
theorem Session.length_eq : episodes.length = count := by
  induction session with
  | done => rfl
  | episode _ _ ih => rw [List.length_cons, ih]

omit [TransOrd S] [TransOrd A] in
theorem Session.apart_from_goal (apart : sameLabel environment.start environment.goal = false) :
    ∀ visit ∈ episodes.flatMap Episode.visits,
      sameLabel visit.state environment.goal = false := by
  intro visit member
  obtain ⟨episode, listed, visited⟩ := List.mem_flatMap.mp member
  obtain ⟨_, _, _, _, _, walks⟩ := session.exists_walks episode listed
  exact walks.apart_from_goal apart visit visited

variable (revising : learner.Revising)
include revising

theorem Session.inOrder (inOrder : InOrder environment.model found.2) :
    InOrder environment.model final.2 := by
  obtain ⟨order, sameVisits, revises⟩ := session.exists_revises revising
  refine revises.inOrder (fun visit member => ?_) inOrder
  exact (session.genuine visit ((sameVisits visit).mp member)).contains_action

/-- In every state in which a session has acted, the policy is the first of the best actions. -/
theorem Session.exists_isFirstBest [FiniteOrder R] (inOrder : InOrder environment.model found.2)
    (finite : AllValues (Number.isFinite · = true) final.2.values) {visit : Visit S A R}
    (member : visit ∈ episodes.flatMap Episode.visits) :
    ∃ row best value, final.2.values[visit.state]? = some row ∧
      final.2.policy[visit.state]? = some best ∧ IsFirstBest row best value := by
  have covers := (session.inOrder revising inOrder).covers
  obtain ⟨order, sameVisits, revises⟩ := session.exists_revises revising
  have offered := (session.genuine visit member).contains_action
  obtain ⟨offer, listed, -⟩ := ActionTable.exists_offer offered
  obtain ⟨row, isRow⟩ := covers.exists_row (Model.contains_of_offer listed)
  obtain ⟨best, isGreedy⟩ := exists_greedyAction? ((covers.row_iff isRow visit.action).mpr offered)
  obtain ⟨value, isFirstBest⟩ := MarkovDecision.exists_isFirstBest isGreedy (finite _ row isRow)
  exact ⟨row, best, value, isRow,
    revises.greedyAt_of_mem ((sameVisits visit).mpr member) row best isRow isGreedy, isFirstBest⟩

omit [TransOrd A] in
theorem Session.goal_unchanged (apart : sameLabel environment.start environment.goal = false) :
    final.2.values[environment.goal]? = found.2.values[environment.goal]? := by
  obtain ⟨order, sameVisits, revises⟩ := session.exists_revises revising
  refine revises.getElem?_eq_of_forall_ne fun visit member same => ?_
  have visitApart := session.apart_from_goal apart visit ((sameVisits visit).mp member)
  rw [(sameLabel_eq_true_iff _ _).mpr same] at visitApart
  cases visitApart

end Episodes

section Runs

variable (revising : learner.Revising) (wellFormed : environment.model.WellFormed) {notes : N}
  {learned : Learned S A R}
  (ran : learner.run environment settings notes source = (.ok learned, rest))
include revising wellFormed ran

theorem inOrder_of_run : InOrder environment.model ⟨learned.values, learned.policy⟩ := by
  obtain ⟨last, session⟩ := session_of_run revising wellFormed ran
  exact session.inOrder revising (environment.inOrder_firstMemory wellFormed source)

/-- Whatever a learner answers with, values and policy fit the model and the episodes. -/
theorem accounts_of_run [FiniteOrder R]
    (finite : AllValues (Number.isFinite · = true) learned.values) :
    learner.Accounts environment settings notes source learned rest := by
  obtain ⟨last, session⟩ := session_of_run revising wellFormed ran
  have inOrder := inOrder_of_run revising wellFormed ran
  refine ⟨inOrder, inOrder.covers.sameKeys (covers_zeroValues wellFormed), ⟨last, session⟩, ?_, ?_⟩
  · intro visit member
    exact session.exists_isFirstBest revising (environment.inOrder_firstMemory wellFormed source)
      finite member
  · intro apart row isRow entry member
    have isZeroRow := (session.goal_unchanged revising apart).symm.trans isRow
    exact eq_zero_of_zeroValues wellFormed isZeroRow (getElem?_of_mem_toList member)

end Runs

end Learner

/-- Whatever Q-learning and Monte Carlo control answer with, as long as the values are finite,
values and policy fit the model and the episodes. -/
theorem learners_account [FiniteOrder R] (wellFormed : environment.model.WellFormed)
    (settings : LearnerSettings R) (source : G) :
    (∀ learned rest, qLearn environment settings source = (.ok learned, rest) →
      AllValues (Number.isFinite · = true) learned.values →
        (qLearner settings).Accounts environment settings () source learned rest) ∧
    ∀ learned rest, monteCarlo environment settings source = (.ok learned, rest) →
      AllValues (Number.isFinite · = true) learned.values →
        (monteCarloLearner settings).Accounts environment settings ∅ source learned rest := by
  constructor
  · intro learned rest isLearned finite
    rw [Learner.qLearn_eq_run] at isLearned
    exact Learner.accounts_of_run (Learner.revising_qLearner settings) wellFormed isLearned finite
  · intro learned rest isLearned finite
    rw [Learner.monteCarlo_eq_run] at isLearned
    exact Learner.accounts_of_run (Learner.revising_monteCarloLearner settings) wellFormed isLearned
      finite

/-- A run that succeeds with an answer of some kind, as can be checked by evaluation. -/
theorem exists_learned_of {S A R G : Type} [Ord S] [Ord A]
    (run : Except DrawError (Learned S A R) × G) (isOfKind : Learned S A R → Bool)
    (succeeds : run.1.toOption.any isOfKind = true) :
    ∃ learned rest, run = (.ok learned, rest) ∧ isOfKind learned = true := by
  obtain ⟨error | learned, rest⟩ := run
  · cases succeeds
  · exact ⟨learned, rest, rfl, succeeds⟩

theorem exists_learned {S A R G : Type} [Ord S] [Ord A]
    (run : Except DrawError (Learned S A R) × G) (visited : run.1.toOption.any (fun learned =>
      !(learned.episodes.flatMap Episode.visits).isEmpty) = true) :
    ∃ learned rest, run = (.ok learned, rest) ∧
      learned.episodes.flatMap Episode.visits ≠ [] := by
  obtain ⟨learned, rest, ran, hasVisits⟩ := exists_learned_of run _ visited
  refine ⟨learned, rest, ran, fun noVisits => ?_⟩
  rw [noVisits] at hasVisits
  cases hasVisits

/-- Both learners take the way of two steps, and what holds of their answers holds of these. -/
theorem learners_account_shortcut :
    alongShortcut.model.WellFormed ∧
      (∃ learned rest, qLearn alongShortcut twoEpisodes (⟨[]⟩ : ListedWords) = (.ok learned, rest) ∧
        AllValues (Number.isFinite · = true) learned.values ∧
        learned.episodes.flatMap Episode.visits ≠ [] ∧
        (qLearner twoEpisodes).Accounts alongShortcut twoEpisodes () ⟨[]⟩ learned rest) ∧
      ∃ learned rest, monteCarlo alongShortcut twoEpisodes (⟨[]⟩ : ListedWords) =
          (.ok learned, rest) ∧
        AllValues (Number.isFinite · = true) learned.values ∧
        learned.episodes.flatMap Episode.visits ≠ [] ∧
        (monteCarloLearner twoEpisodes).Accounts alongShortcut twoEpisodes ∅ ⟨[]⟩ learned rest := by
  have wellFormed : alongShortcut.model.WellFormed := wellFormed_shortcut
  have finite (values : ActionValues Nat Nat Rat) : AllValues (Number.isFinite · = true) values :=
    fun _ _ _ _ _ => rfl
  obtain ⟨ofQLearning, ofMonteCarlo⟩ :=
    learners_account wellFormed twoEpisodes (⟨[]⟩ : ListedWords)
  obtain ⟨first, firstRest, firstRan, firstVisits⟩ := exists_learned
    (qLearn alongShortcut twoEpisodes (⟨[]⟩ : ListedWords)) (by decide +kernel)
  obtain ⟨second, secondRest, secondRan, secondVisits⟩ := exists_learned
    (monteCarlo alongShortcut twoEpisodes (⟨[]⟩ : ListedWords)) (by decide +kernel)
  exact ⟨wellFormed,
    ⟨first, firstRest, firstRan, finite _, firstVisits, ofQLearning _ _ firstRan (finite _)⟩,
    second, secondRest, secondRan, finite _, secondVisits, ofMonteCarlo _ _ secondRan (finite _)⟩

end MarkovDecision
