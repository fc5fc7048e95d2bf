import MarkovDecision.Proofs.Learning.Bounds

/-!
# Monte Carlo control averages returns

When no episode takes an action of a state twice, the value that Monte Carlo control has for the
action is the mean of the returns of the episodes that took it: of what the rest of the episode was
worth, discounted from the visit on.  An episode is backed up in two passes.  The first one counts
its visits, so that in the second one, which goes backwards, each value that was visited moves
towards its return by one over the number of returns with the new one.  That is how a mean takes up
one number more, and `Averages` holds of the counts and the memory after every episode.
-/

namespace MarkovDecision

open Std (TreeMap TransOrd ReflCmp)

variable {S A : Type} [Ord S] [Ord A]

section Definitions

variable {R : Type}

/-- Whether a visit takes an action of a state. -/
def Visit.isOf (visit : Visit S A R) (state : S) (action : A) : Bool :=
  sameLabel visit.state state && sameLabel visit.action action

/-- No action of a state is taken twice. -/
def Episode.VisitsOnce (episode : Episode S A R) : Prop :=
  episode.visits.Pairwise fun first second => ¬second.isOf first.state first.action = true

instance (episode : Episode S A R) : Decidable episode.VisitsOnce :=
  inferInstanceAs (Decidable (List.Pairwise _ _))

/-- The value that a memory has for an action of a state. -/
def Memory.value? (memory : Memory S A R) (state : S) (action : A) : Option R :=
  memory.values[state]?.bind (·[action]?)

end Definitions

/-- What visits are worth, each reward being discounted by the number of visits before it. -/
def discountedReward (discount : Rat) (visits : List (Visit S A Rat)) : Rat :=
  (visits.zipIdx.map fun (visit, elapsed) => discount ^ elapsed * visit.reward).sum

/-- What the visits are worth from the first one on that takes an action of a state, if any does. -/
def returnAfter? (discount : Rat) (state : S) (action : A) : List (Visit S A Rat) → Option Rat
  | [] => none
  | visit :: later =>
    if visit.isOf state action then some (discountedReward discount (visit :: later))
    else returnAfter? discount state action later

/-- The returns of an action of a state in the episodes that took it. -/
def returnsAfter (discount : Rat) (state : S) (action : A) (episodes : List (Episode S A Rat)) :
    List Rat :=
  episodes.filterMap fun episode => returnAfter? discount state action episode.visits

/-- The arithmetic mean of numbers; zero if there are none. -/
def average (numbers : List Rat) : Rat :=
  numbers.sum / numbers.length

@[simp]
theorem average_nil : average [] = 0 :=
  div_zero _

theorem average_append_singleton (numbers : List Rat) (number : Rat) :
    average (numbers ++ [number]) =
      average numbers + (number - average numbers) / ((numbers.length + 1 : Nat) : Rat) := by
  unfold average
  rw [List.sum_append, List.sum_singleton, List.length_append, List.length_singleton]
  push_cast
  -- The first number takes the place of the mean of none.
  rcases Nat.eq_zero_or_pos numbers.length with isEmpty | isPositive
  · rw [List.length_eq_zero_iff.mp isEmpty]
    simp
  · have isNonzero : (numbers.length : Rat) ≠ 0 := Nat.cast_ne_zero.mpr isPositive.ne'
    have nextNonzero : (numbers.length : Rat) + 1 ≠ 0 := Nat.cast_add_one_ne_zero _
    field_simp
    ring

omit [Ord S] [Ord A] in
theorem discountedReward_cons (discount : Rat) (visit : Visit S A Rat)
    (later : List (Visit S A Rat)) :
    discountedReward discount (visit :: later) =
      discount * discountedReward discount later + visit.reward := by
  unfold discountedReward
  rw [List.zipIdx_cons', List.map_cons, List.sum_cons, List.map_map, ← List.sum_map_mul_left,
    add_comm]
  dsimp only
  rw [pow_zero, one_mul]
  congr 3
  funext entry
  obtain ⟨other, elapsed⟩ := entry
  change discount ^ (elapsed + 1) * other.reward = discount * (discount ^ elapsed * other.reward)
  rw [pow_succ', mul_assoc]

theorem returnsAfter_append_singleton (discount : Rat) (state : S) (action : A)
    (episodes : List (Episode S A Rat)) (episode : Episode S A Rat) :
    returnsAfter discount state action (episodes ++ [episode]) =
      returnsAfter discount state action episodes ++
        (returnAfter? discount state action episode.visits).toList := by
  rw [returnsAfter, List.filterMap_append]
  rfl

section Visits

variable {R : Type} {state : S} {action : A}

theorem Visit.isOf_eq_true_iff (visit : Visit S A R) : visit.isOf state action = true ↔
    compare visit.state state = .eq ∧ compare visit.action action = .eq := by
  rw [isOf, Bool.and_eq_true, sameLabel_eq_true_iff, sameLabel_eq_true_iff]

variable {discount : Rat} {visit : Visit S A Rat} {later : List (Visit S A Rat)}

theorem returnAfter?_eq_none (notTaken : ∀ other ∈ later, ¬other.isOf state action = true) :
    returnAfter? discount state action later = none := by
  induction later with
  | nil => rfl
  | cons visit later ih =>
      obtain ⟨apart, laterApart⟩ := List.forall_mem_cons.mp notTaken
      rw [returnAfter?, if_neg apart]
      exact ih laterApart

/-- An action that was just taken is not taken again. -/
theorem returnAfter?_later_eq_none [TransOrd S] [TransOrd A]
    (once : ∀ other ∈ later, ¬other.isOf visit.state visit.action = true)
    (takes : visit.isOf state action = true) :
    returnAfter? discount state action later = none := by
  rw [Visit.isOf_eq_true_iff] at takes
  refine returnAfter?_eq_none fun other member again => once other member ?_
  rw [Visit.isOf_eq_true_iff] at again ⊢
  exact ⟨Std.TransCmp.eq_trans again.1 (Std.OrientedCmp.eq_symm takes.1),
    Std.TransCmp.eq_trans again.2 (Std.OrientedCmp.eq_symm takes.2)⟩

end Visits

section Passes

variable [TransOrd S] [TransOrd A] {state : S} {action : A}

theorem visitCount_congr (counts : VisitCounts S A) {acted : S} {taken : A}
    (sameState : compare acted state = .eq) (sameAction : compare taken action = .eq) :
    visitCount counts acted taken = visitCount counts state action := by
  simp only [visitCount, TreeMap.getElem?_congr sameState, TreeMap.getElem?_congr sameAction]

theorem Memory.value?_update {R : Type} [Number R] {memory : Memory S A R} {value : R}
    (found : memory.value? state action = some value) (acted : S) (taken : A) (change : R → R) :
    (memory.update acted taken change).value? state action =
      some (if compare acted state = .eq ∧ compare taken action = .eq then change value
        else value) := by
  obtain ⟨row, isRow, isValue⟩ := Option.bind_eq_some_iff.mp found
  rw [value?, getElem?_update]
  by_cases sameState : compare acted state = .eq
  · rw [if_pos sameState, TreeMap.getElem?_congr sameState, isRow, Option.map_some,
      Option.bind_some, TreeMap.getElem?_alter]
    by_cases sameAction : compare taken action = .eq
    · rw [if_pos sameAction, if_pos ⟨sameState, sameAction⟩, TreeMap.getElem?_congr sameAction,
        isValue, Option.getD_some]
    · rw [if_neg sameAction, if_neg fun same => sameAction same.2, isValue]
  · rw [if_neg sameState, if_neg fun same => sameState same.1]
    exact found

variable (discount : Rat) {visits : List (Visit S A Rat)}
  (once : visits.Pairwise fun first second => ¬second.isOf first.state first.action = true)

include once in
theorem visitCount_foldl (counts : VisitCounts S A) (state : S) (action : A) :
    visitCount (visits.foldl countVisit counts) state action = visitCount counts state action +
      (returnAfter? discount state action visits).toList.length := by
  induction visits generalizing counts with
  | nil => rfl
  | cons visit later ih =>
      obtain ⟨onceHere, onceLater⟩ := List.pairwise_cons.mp once
      rw [List.foldl_cons, ih onceLater, visitCount_countVisit, returnAfter?]
      by_cases takes : visit.isOf state action = true
      · rw [if_pos takes, if_pos ((Visit.isOf_eq_true_iff visit).mp takes),
          returnAfter?_later_eq_none onceHere takes]
        rfl
      · rw [if_neg takes, if_neg (mt (Visit.isOf_eq_true_iff visit).mpr takes)]
        rfl

/-- The second pass, backwards through the visits. -/
def backUps (discount : Rat) (counts : VisitCounts S A) (visits : List (Visit S A Rat))
    (memory : Memory S A Rat) : Rat × Memory S A Rat :=
  visits.foldr (fun visit following => backUp discount counts following visit) (0, memory)

omit [TransOrd S] [TransOrd A] in
theorem settle_monteCarloLearner (settings : LearnerSettings Rat) (visits : List (Visit S A Rat))
    (found : VisitCounts S A × Memory S A Rat) :
    (monteCarloLearner settings).settle visits found =
      (visits.foldl countVisit found.1,
        (backUps settings.discount (visits.foldl countVisit found.1) visits found.2).2) := by
  rw [backUps, ← List.foldl_reverse]
  rfl

omit [TransOrd S] [TransOrd A] in
/-- What the second pass carries along is the worth of the visits that it has gone through. -/
theorem backUps_fst (counts : VisitCounts S A) (memory : Memory S A Rat) :
    (backUps discount counts visits memory).1 = discountedReward discount visits := by
  induction visits with
  | nil => rfl
  | cons visit later ih =>
      rw [discountedReward_cons, ← ih]
      rfl

include once in
theorem value?_backUps (counts : VisitCounts S A) {memory : Memory S A Rat} {value : Rat}
    (found : memory.value? state action = some value) :
    (backUps discount counts visits memory).2.value? state action =
      some ((returnAfter? discount state action visits).elim value fun gain =>
        value + (gain - value) / (visitCount counts state action : Rat)) := by
  induction visits with
  | nil => exact found
  | cons visit later ih =>
      obtain ⟨onceHere, onceLater⟩ := List.pairwise_cons.mp once
      have updated := Memory.value?_update (ih onceLater) visit.state visit.action fun value =>
        value + (discount * (backUps discount counts later memory).1 + visit.reward - value) /
          (visitCount counts visit.state visit.action : Rat)
      refine updated.trans ?_
      rw [backUps_fst, ← discountedReward_cons, returnAfter?]
      -- The pass comes to this visit last: what it carries is the return, and no later visit of the
      -- same action has touched the value.
      by_cases takes : visit.isOf state action = true
      · obtain ⟨sameState, sameAction⟩ := (Visit.isOf_eq_true_iff visit).mp takes
        rw [if_pos takes, if_pos ⟨sameState, sameAction⟩, returnAfter?_later_eq_none onceHere takes,
          visitCount_congr counts sameState sameAction]
        rfl
      · rw [if_neg takes, if_neg (mt (Visit.isOf_eq_true_iff visit).mpr takes)]

end Passes

/-- For an action of a state, what is known from episodes is how many of them took it, and the mean
of their returns. -/
structure Averages (discount : Rat) (state : S) (action : A) (episodes : List (Episode S A Rat))
    (found : VisitCounts S A × Memory S A Rat) : Prop where
  count_eq : visitCount found.1 state action = (returnsAfter discount state action episodes).length
  value_eq : found.2.value? state action =
    some (average (returnsAfter discount state action episodes))

section Episodes

variable [TransOrd S] [TransOrd A] {settings : LearnerSettings Rat} {state : S} {action : A}

theorem Averages.settle {past : List (Episode S A Rat)} {found : VisitCounts S A × Memory S A Rat}
    (averages : Averages settings.discount state action past found) {episode : Episode S A Rat}
    (once : episode.VisitsOnce) :
    Averages settings.discount state action (past ++ [episode])
      ((monteCarloLearner settings).settle episode.visits found) := by
  have counted := visitCount_foldl settings.discount once found.1 state action
  have backed := value?_backUps settings.discount once
    (episode.visits.foldl countVisit found.1) averages.value_eq
  rw [averages.count_eq] at counted
  rw [counted] at backed
  rw [settle_monteCarloLearner]
  constructor
  · rw [returnsAfter_append_singleton, List.length_append, counted]
  · rw [returnsAfter_append_singleton, backed]
    cases returnAfter? settings.discount state action episode.visits with
    | none => simp
    | some gain =>
        rw [Option.elim_some, Option.toList_some, average_append_singleton, List.length_singleton]

variable {G : Type} [RandomSource G] {environment : Environment S A Rat}

/-- The episodes of a session are settled one after the other. -/
theorem Averages.session {past episodes : List (Episode S A Rat)} {count : Nat}
    {exploration : Rat} {found final : VisitCounts S A × Memory S A Rat} {source rest : G}
    (averages : Averages settings.discount state action past found)
    (session : (monteCarloLearner settings).Session environment settings count exploration found
      source episodes final rest)
    (once : ∀ episode ∈ episodes, episode.VisitsOnce) :
    Averages settings.discount state action (past ++ episodes) final := by
  induction session generalizing past with
  | done => rwa [List.append_nil]
  | @episode _ _ notes memory reached _ _ _ visits arrived episodes _ walks _ ih =>
      obtain ⟨onceFirst, onceLater⟩ := List.forall_mem_cons.mp once
      -- While it walks, Monte Carlo control learns nothing.
      have unchanged : reached = memory := walks.final_eq.trans (List.foldl_fixed visits)
      subst unchanged
      have settled := ih (averages.settle onceFirst) onceLater
      rwa [List.append_assoc, List.singleton_append] at settled

theorem averages_firstMemory (wellFormed : environment.model.WellFormed) (source : G)
    (discount : Rat) (offered : (environment.model.actions state).contains action = true) :
    Averages discount state action [] ((∅ : VisitCounts S A), environment.firstMemory source) where
  count_eq := by
    simp [visitCount, returnsAfter]
  value_eq := by
    have covers := covers_zeroValues wellFormed
    obtain ⟨offer, listed, -⟩ := ActionTable.exists_offer offered
    obtain ⟨row, isRow⟩ := covers.exists_row (Model.contains_of_offer listed)
    obtain ⟨value, isValue⟩ := covers.exists_value isRow offered
    have isZero := eq_zero_of_zeroValues wellFormed isRow isValue
    change environment.zeroValues[state]?.bind (·[action]?) = _
    rw [isRow, Option.bind_some, isValue, isZero, returnsAfter, List.filterMap_nil, average_nil]

/-- Where no episode takes an action of a state twice, the values that Monte Carlo control answers
with are means: that of an action of a state is the mean, over the episodes that took it, of the
discounted rewards from this visit to the end of the episode, and zero if no episode took it. -/
theorem monteCarlo_averages_returns (wellFormed : environment.model.WellFormed) {source rest : G}
    {learned : Learned S A Rat}
    (isLearned : monteCarlo environment settings source = (.ok learned, rest))
    (once : ∀ episode ∈ learned.episodes, episode.VisitsOnce) (state : S) (action : A)
    (offered : (environment.model.actions state).contains action = true) :
    ∃ row value, learned.values[state]? = some row ∧ row[action]? = some value ∧
      value = if returnsAfter settings.discount state action learned.episodes = [] then 0
        else (returnsAfter settings.discount state action learned.episodes).sum /
          (returnsAfter settings.discount state action learned.episodes).length := by
  rw [Learner.monteCarlo_eq_run] at isLearned
  obtain ⟨last, session⟩ := Learner.session_of_run (Learner.revising_monteCarloLearner settings)
    wellFormed isLearned
  have averages := (averages_firstMemory wellFormed source settings.discount offered).session
    session once
  obtain ⟨row, isRow, isValue⟩ := Option.bind_eq_some_iff.mp averages.value_eq
  refine ⟨row, _, isRow, isValue, ?_⟩
  rw [List.nil_append]
  split
  · rename_i noReturns
    rw [noReturns, average_nil]
  · rfl

end Episodes

/-- From a fork there is a way to the goal that is short or long as chance will have it, and another
one. -/
def fork : Model Nat Nat Rat :=
  ((((Model.empty.addTransition 0 0 1 (1 / 2) (-4)).addTransition 0 0 3 (1 / 2) (-1)).addTransition
    0 1 3 1 (-7)).addTransition 1 0 2 1 (-2)).addTransition 2 0 3 1 (-9)

theorem wellFormed_fork : fork.WellFormed :=
  ((((Model.wellFormed_empty.addTransition 0 0 1 (1 / 2) (-4)).addTransition
    0 0 3 (1 / 2) (-1)).addTransition 0 1 3 1 (-7)).addTransition 1 0 2 1 (-2)).addTransition
      2 0 3 1 (-9)

def fromFork : Environment Nat Nat Rat :=
  ⟨fork, 0, 3⟩

/-- Two episodes of at most two steps that try out everything, with a discount factor of one
half. -/
def twoTrials : LearnerSettings Rat :=
  ⟨1 / 2, 1 / 2, 1, 1, 1, 2, 2⟩

/-- Words that make the first episode take the long way and the second one the short way. -/
def longThenShort : ListedWords :=
  ⟨List.replicate 16 0 ++ [4294967295, 4294967295]⟩

/-- The first episode is cut off on the long way, after a loss of four and one of two, and the
second one loses one on the short way.  What is learned about the fork is the mean of minus five and
minus one; nothing is learned about the way that was not taken. -/
theorem monteCarlo_averages_returns_fromFork :
    fromFork.model.WellFormed ∧ (fromFork.model.actions 0).contains 0 = true ∧
      (fromFork.model.actions 0).contains 1 = true ∧ ∃ learned rest,
        monteCarlo fromFork twoTrials longThenShort = (.ok learned, rest) ∧
        (∀ episode ∈ learned.episodes, episode.VisitsOnce) ∧
        learned.episodes.map Episode.truncated = [true, false] ∧
        returnsAfter twoTrials.discount 0 0 learned.episodes = [-5, -1] ∧
        returnsAfter twoTrials.discount 0 1 learned.episodes = [] ∧
        (∃ row, learned.values[0]? = some row ∧ row[0]? = some (-3 : Rat)) ∧
        ∃ row, learned.values[0]? = some row ∧ row[1]? = some (0 : Rat) := by
  have wellFormed : fromFork.model.WellFormed := wellFormed_fork
  have long : (fromFork.model.actions 0).contains 0 = true := by decide +kernel
  have direct : (fromFork.model.actions 0).contains 1 = true := by decide +kernel
  have facts : ∀ learned ∈ (monteCarlo fromFork twoTrials longThenShort).1.toOption,
      (∀ episode ∈ learned.episodes, episode.VisitsOnce) ∧
        learned.episodes.map Episode.truncated = [true, false] ∧
        returnsAfter twoTrials.discount 0 0 learned.episodes = [-5, -1] ∧
        returnsAfter twoTrials.discount 0 1 learned.episodes = [] := by
    decide +kernel
  obtain ⟨learned, rest, ran, -⟩ :=
    exists_learned (monteCarlo fromFork twoTrials longThenShort) (by decide +kernel)
  obtain ⟨once, truncated, taken, notTaken⟩ := facts learned (by rw [ran]; rfl)
  obtain ⟨row, value, isRow, isValue, valueEq⟩ :=
    monteCarlo_averages_returns wellFormed ran once 0 0 long
  obtain ⟨sameRow, other, isSameRow, isOther, otherEq⟩ :=
    monteCarlo_averages_returns wellFormed ran once 0 1 direct
  have isMean : value = -3 := by
    rw [valueEq, taken, if_neg (List.cons_ne_nil _ _)]
    norm_num
  rw [isMean] at isValue
  rw [otherEq, if_pos notTaken] at isOther
  exact ⟨wellFormed, long, direct, learned, rest, ran, once, truncated, taken, notTaken,
    ⟨row, isRow, isValue⟩, sameRow, isSameRow, isOther⟩

end MarkovDecision
