import MarkovDecision.Proofs.Learning.Visits

/-!
# Q-learning on models without chance

Where no step is left to chance and no step gains anything, Q-learning does not undershoot value
iteration.  After each visit, every value is at least the return of as many steps as there were
visits so far: the value that is learned moves towards a goal that looks one step further than any
value did before, and the others need not move, because the return of one step more is no greater.
-/

namespace MarkovDecision

open Std (TreeMap TransOrd LawfulEqOrd ReflCmp)

variable {S A : Type} [Ord S] [Ord A]

section Runs

variable {R G : Type} [Number R] [RandomSource G] {environment : Environment S A R}
  {settings : LearnerSettings R}

theorem exists_episodes_of_qLearnFrom {count : Nat} {exploration : R}
    {episodes : List (Episode S A R)} {memory : Memory S A R} {source rest : G}
    {learned : Learned S A R}
    (isLearned : qLearnFrom environment settings count exploration episodes memory source =
      (.ok learned, rest)) :
    ∃ added, learned.episodes = episodes.reverse ++ added ∧
      (⟨learned.values, learned.policy⟩ : Memory S A R) =
        (added.flatMap Episode.visits).foldl (learnVisit settings) memory ∧
      ∀ visit ∈ added.flatMap Episode.visits, environment.Genuine visit := by
  induction count generalizing exploration episodes memory source with
  | zero =>
      cases isLearned
      exact ⟨[], by simp, rfl, by simp⟩
  | succ count ih =>
      unfold qLearnFrom at isLearned
      split at isLearned
      · cases isLearned
      · rename_i episode memory _ walked
        obtain ⟨visits, visitsEq, rfl, genuine⟩ := Environment.exists_visits_of_walk walked
        obtain ⟨added, episodesEq, memoryEq, genuineLater⟩ := ih isLearned
        rw [List.reverse_nil, List.nil_append] at visitsEq
        refine ⟨episode :: added, ?_, ?_, ?_⟩
        · rw [episodesEq, List.reverse_cons, List.append_assoc, List.singleton_append]
        · rw [memoryEq, List.flatMap_cons, List.foldl_append, visitsEq]
        · rw [List.flatMap_cons, List.forall_mem_append, visitsEq]
          exact ⟨genuine, genuineLater⟩

/-- What Q-learning answers is learned from the visits of its episodes, which are genuine, beginning
with zero values. -/
theorem exists_policy_of_qLearn {source rest : G} {learned : Learned S A R}
    (isLearned : qLearn environment settings source = (.ok learned, rest)) :
    ∃ policy, (⟨learned.values, learned.policy⟩ : Memory S A R) =
        (learned.episodes.flatMap Episode.visits).foldl (learnVisit settings)
          ⟨environment.zeroValues, policy⟩ ∧
      ∀ visit ∈ learned.episodes.flatMap Episode.visits, environment.Genuine visit := by
  unfold qLearn at isLearned
  obtain ⟨added, episodesEq, memoryEq, genuine⟩ := exists_episodes_of_qLearnFrom isLearned
  rw [List.reverse_nil, List.nil_append] at episodesEq
  rw [episodesEq]
  exact ⟨_, memoryEq, genuine⟩

end Runs

namespace Model

/-- Every action leads to one state for certain. -/
def Deterministic (model : Model S A Rat) : Prop :=
  ∀ state, ∀ offer ∈ (model.actions state).toList, ∃ next, offer.2.toList = [(next, 1)]

/-- No transition gains anything. -/
def OnlyCosts (model : Model S A Rat) : Prop :=
  ∀ state, ∀ transition ∈ model.outgoing state, transition.weight ≤ 0

/-- The greatest expected discounted reward of a number of steps that begin with an action. -/
def actionReturn (model : Model S A Rat) (discount : Rat) :
    Nat → S → A × Distribution S Rat → Rat
  | 0, _, _ => 0
  | steps + 1, state, offer => model.promise discount (model.bestReturn discount steps) state offer

variable {model : Model S A Rat} {discount : Rat}

theorem bestReturn_eq_greatest (steps : Nat) (state : S) :
    model.bestReturn discount steps state =
      greatest ((model.actions state).toList.map (model.actionReturn discount steps state)) := by
  cases steps with
  | zero =>
      symm
      apply greatest_eq_zero
      intro value member
      obtain ⟨offer, -, rfl⟩ := List.mem_map.mp member
      rfl
  | succ steps => rfl

/-- Where no step gains anything, an action promises no gain if there is nothing after it. -/
theorem promise_zero_nonpos (nonneg : model.Nonnegative) (onlyCosts : model.OnlyCosts) {state : S}
    {offer : A × Distribution S Rat} (offered : offer ∈ (model.actions state).toList) :
    model.promise discount (model.bestReturn discount 0) state offer ≤ 0 := by
  have noGain : expected offer.2 (fun next =>
      (model.weight? state offer.1 (some next)).getD 0) ≤ expected offer.2 fun _ => 0 :=
    expected_le_expected (nonneg state offer offered) fun entry _ =>
      getD_weight?_of_outgoing (· ≤ 0) (le_refl 0) onlyCosts state offer.1 entry.1
  rw [expected_const, mul_zero] at noGain
  simpa [promise, bestReturn] using noGain

theorem bestReturn_succ_le (nonneg : model.Nonnegative) (onlyCosts : model.OnlyCosts)
    (isDiscount : 0 ≤ discount) (steps : Nat) (state : S) :
    model.bestReturn discount (steps + 1) state ≤ model.bestReturn discount steps state := by
  induction steps generalizing state with
  | zero =>
      apply greatest_le (le_refl 0)
      intro value member
      obtain ⟨offer, offered, rfl⟩ := List.mem_map.mp member
      exact promise_zero_nonpos nonneg onlyCosts offered
  | succ steps ih => exact bestReturn_succ_le_succ nonneg isDiscount ih state

theorem actionReturn_succ_le (nonneg : model.Nonnegative) (onlyCosts : model.OnlyCosts)
    (isDiscount : 0 ≤ discount) (steps : Nat) {state : S} {offer : A × Distribution S Rat}
    (offered : offer ∈ (model.actions state).toList) :
    model.actionReturn discount (steps + 1) state offer ≤
      model.actionReturn discount steps state offer := by
  cases steps with
  | zero => exact promise_zero_nonpos nonneg onlyCosts offered
  | succ steps =>
      exact promise_le_promise nonneg isDiscount offered fun entry _ =>
        bestReturn_succ_le nonneg onlyCosts isDiscount steps entry.1

theorem actionReturn_succ_le_of_getElem? [TransOrd S] [TransOrd A] (nonneg : model.Nonnegative)
    (onlyCosts : model.OnlyCosts) (isDiscount : 0 ≤ discount) (steps : Nat) {state : S} {action : A}
    {distribution : Distribution S Rat}
    (offered : (model.actions state)[action]? = some distribution) :
    model.actionReturn discount (steps + 1) state (action, distribution) ≤
      model.actionReturn discount steps state (action, distribution) := by
  obtain ⟨label, same, member⟩ :=
    TreeMap.getElem?_eq_some_iff_exists_compare_eq_eq_and_mem_toList.mp offered
  have sameReturn (steps : Nat) :
      model.actionReturn discount steps state (action, distribution) =
        model.actionReturn discount steps state (label, distribution) := by
    cases steps with
    | zero => rfl
    | succ steps => exact promise_congr _ state same distribution
  rw [sameReturn, sameReturn]
  exact actionReturn_succ_le nonneg onlyCosts isDiscount steps member

theorem Deterministic.nonnegative (deterministic : model.Deterministic) : model.Nonnegative := by
  intro state offer offered entry member
  obtain ⟨next, listEq⟩ := deterministic state offer offered
  rw [listEq, List.mem_singleton] at member
  rw [member]
  exact zero_le_one

theorem Deterministic.promise_eq [TransOrd S] [LawfulEqOrd S] [TransOrd A]
    (deterministic : model.Deterministic) {state : S} {action : A}
    {distribution : Distribution S Rat}
    (offered : (model.actions state)[action]? = some distribution) {next : S}
    (isNext : distribution.contains next = true) (values : S → Rat) :
    model.promise discount values state (action, distribution) =
      (model.weight? state action (some next)).getD 0 + discount * values next := by
  obtain ⟨label, -, member⟩ :=
    TreeMap.getElem?_eq_some_iff_exists_compare_eq_eq_and_mem_toList.mp offered
  obtain ⟨certain, listEq⟩ := deterministic state (label, distribution) member
  rw [TreeMap.contains_eq_isSome_getElem?] at isNext
  obtain ⟨probability, found⟩ := Option.isSome_iff_exists.mp isNext
  have isEntry := TreeMap.mem_toList_iff_getElem?_eq_some.mpr found
  rw [listEq, List.mem_singleton] at isEntry
  cases isEntry
  simp [promise, expected, listEq]

end Model

/-- A value that moves towards a goal stays above what both are above. -/
theorem le_add_mul_sub {low value goal rate : Rat} (isNonneg : 0 ≤ rate) (atMostOne : rate ≤ 1)
    (valueAbove : low ≤ value) (goalAbove : low ≤ goal) : low ≤ value + rate * (goal - value) := by
  calc low = (1 - rate) * low + rate * low := by ring
    _ ≤ (1 - rate) * value + rate * goal := by gcongr
    _ = value + rate * (goal - value) := by ring

theorem bestValue_eq_greatest {values : ActionValues S A Rat} {state : S} {row : TreeMap A Rat}
    (found : values[state]? = some row) : bestValue values state = greatest row.values := by
  simp only [bestValue, found, largest?_eq_max?]
  split
  · rename_i isEmpty
    rw [← TreeMap.isEmpty_toList, List.isEmpty_iff] at isEmpty
    rw [values_eq_map, isEmpty]
    rfl
  · rfl

/-- Every value in a table is at least the return of a number of steps that begin with its
action. -/
structure AboveReturns (model : Model S A Rat) (discount : Rat) (steps : Nat)
    (values : ActionValues S A Rat) : Prop extends Covers model values where
  above : ∀ {state row}, values[state]? = some row → ∀ {action value distribution},
    row[action]? = some value → (model.actions state)[action]? = some distribution →
      model.actionReturn discount steps state (action, distribution) ≤ value

section Bounds

variable [TransOrd S] [TransOrd A] {model : Model S A Rat} {discount : Rat}

theorem AboveReturns.bestReturn_le_bestValue {steps : Nat} {values : ActionValues S A Rat}
    (bound : AboveReturns model discount steps values) {state : S}
    (known : model.contains state = true) :
    model.bestReturn discount steps state ≤ bestValue values state := by
  obtain ⟨row, found⟩ := bound.exists_row known
  rw [bestValue_eq_greatest found, Model.bestReturn_eq_greatest]
  by_cases noActions : (model.actions state).toList = []
  · rw [noActions, (bound.values_eq_nil_iff found).mpr noActions]
    exact le_refl 0
  · obtain ⟨offer, offered, isGreatest⟩ :=
      List.mem_map.mp (greatest_mem (mt List.map_eq_nil_iff.mp noActions))
    obtain ⟨value, valueEq⟩ := bound.exists_value found (ActionTable.contains_of_mem offered)
    rw [← isGreatest]
    exact (bound.above found valueEq (ActionTable.getElem?_of_mem offered)).trans
      (le_greatest (mem_values_of_getElem? valueEq))

theorem aboveReturns_zeroValues {environment : Environment S A Rat}
    (wellFormed : environment.model.WellFormed) (discount : Rat) :
    AboveReturns environment.model discount 0 environment.zeroValues where
  toCovers := covers_zeroValues wellFormed
  above := by
    intro state row isRow action value distribution isValue _
    exact (eq_zero_of_zeroValues wellFormed isRow isValue).ge

variable [LawfulEqOrd S] {environment : Environment S A Rat} {settings : LearnerSettings Rat}
  (wellFormed : environment.model.WellFormed) (deterministic : environment.model.Deterministic)
  (onlyCosts : environment.model.OnlyCosts) (isDiscount : 0 ≤ settings.discount)
  (isRate : 0 ≤ settings.learningRate ∧ settings.learningRate ≤ 1)
include wellFormed deterministic onlyCosts isDiscount isRate

/-- What is learned from a visit bounds the returns of one step more. -/
theorem AboveReturns.learnVisit {steps : Nat} {memory : Memory S A Rat}
    (bound : AboveReturns environment.model settings.discount steps memory.values)
    {visit : Visit S A Rat} (genuine : environment.Genuine visit) :
    AboveReturns environment.model settings.discount (steps + 1)
      (learnVisit settings memory visit).values := by
  have contained := genuine.contains_action
  have nextAbove := bound.bestReturn_le_bestValue (genuine.contains_next wellFormed)
  obtain ⟨⟨distribution, offered, drawable⟩, rewardEq⟩ := genuine
  -- A value that stays bounds the return of one step more, which is no greater.
  have stays {state : S} {row : TreeMap A Rat} (isRow : memory.values[state]? = some row)
      {action : A} {value : Rat} {shares : Distribution S Rat} (isValue : row[action]? = some value)
      (isOffered : (environment.model.actions state)[action]? = some shares) :
      environment.model.actionReturn settings.discount (steps + 1) state (action, shares) ≤
        value :=
    (Model.actionReturn_succ_le_of_getElem? deterministic.nonnegative onlyCosts isDiscount steps
      isOffered).trans (bound.above isRow isValue isOffered)
  refine ⟨bound.toCovers.update contained _, ?_⟩
  intro state row isRow action value shares isValue isOffered
  rw [MarkovDecision.learnVisit, Memory.getElem?_update] at isRow
  split at isRow
  · rename_i sameState
    cases LawfulEqOrd.eq_of_compare sameState
    obtain ⟨before, found, rfl⟩ := Option.map_eq_some_iff.mp isRow
    rw [TreeMap.getElem?_alter] at isValue
    split at isValue
    · rename_i sameAction
      cases isValue
      obtain ⟨old, oldEq⟩ := bound.exists_value found contained
      rw [oldEq, Option.getD_some]
      apply le_add_mul_sub isRate.1 isRate.2
      · rw [TreeMap.getElem?_congr sameAction] at oldEq
        exact stays found oldEq isOffered
      · rw [← TreeMap.getElem?_congr sameAction, offered] at isOffered
        cases isOffered
        rw [Model.actionReturn, ← Model.promise_congr _ _ sameAction,
          deterministic.promise_eq offered drawable.contains, rewardEq]
        gcongr
    · exact stays found isValue isOffered
  · exact stays isRow isValue isOffered

theorem AboveReturns.foldl_learnVisit {visits : List (Visit S A Rat)}
    (genuine : ∀ visit ∈ visits, environment.Genuine visit) {steps : Nat}
    {memory : Memory S A Rat}
    (bound : AboveReturns environment.model settings.discount steps memory.values) :
    AboveReturns environment.model settings.discount (steps + visits.length)
      (visits.foldl (MarkovDecision.learnVisit settings) memory).values := by
  induction visits generalizing steps memory with
  | nil => exact bound
  | cons visit visits ih =>
      obtain ⟨isGenuine, genuineRest⟩ := List.forall_mem_cons.mp genuine
      have afterFirst := bound.learnVisit wellFormed deterministic onlyCosts isDiscount isRate
        isGenuine
      rw [List.foldl_cons, List.length_cons, ← Nat.add_assoc, Nat.add_right_comm]
      exact ih genuineRest afterFirst

/-- On a model without chance and without gains, the best value that Q-learning has for a state is
at least what value iteration finds for as many steps as all its episodes had. -/
theorem valueIteration_le_qLearn {G : Type} [RandomSource G] {words rest : G}
    {learned : Learned S A Rat}
    (isLearned : qLearn environment settings words = (.ok learned, rest)) {state : S}
    (hasActions : (environment.model.actions state).toList ≠ []) :
    ∃ row best value, learned.values[state]? = some row ∧ row.values.max? = some best ∧
      (environment.model.valueIteration settings.discount
        (learned.episodes.map Episode.steps).sum).1[state]? = some value ∧ value ≤ best := by
  obtain ⟨policy, memoryEq, genuine⟩ := exists_policy_of_qLearn isLearned
  have initially : AboveReturns environment.model settings.discount 0
      (⟨environment.zeroValues, policy⟩ : Memory S A Rat).values :=
    aboveReturns_zeroValues wellFormed settings.discount
  have bound := initially.foldl_learnVisit wellFormed deterministic onlyCosts isDiscount isRate
    genuine
  rw [← memoryEq, Nat.zero_add, List.length_flatMap] at bound
  obtain ⟨offer, offered⟩ := List.exists_mem_of_ne_nil _ hasActions
  have known := Model.contains_of_offer offered
  obtain ⟨row, found⟩ := bound.exists_row known
  have atLeast := bound.bestReturn_le_bestValue known
  rw [bestValue_eq_greatest found] at atLeast
  have someValue : row.values ≠ [] := mt (bound.values_eq_nil_iff found).mp hasActions
  obtain ⟨best, isBest⟩ := Option.ne_none_iff_exists'.mp (mt List.max?_eq_none_iff.mp someValue)
  rw [greatest, isBest, Option.getD_some] at atLeast
  refine ⟨row, best, _, found, isBest, ?_, atLeast⟩
  rw [wellFormed.getElem?_valueIteration, if_pos known]
  rfl

end Bounds

/-- A way of two steps to the goal that costs one each, and a direct one that costs five. -/
def shortcut : Model Nat Nat Rat :=
  ((Model.empty.addTransition 0 0 1 1 (-1)).addTransition 1 0 2 1 (-1)).addTransition 0 1 2 1 (-5)

theorem wellFormed_shortcut : shortcut.WellFormed :=
  ((Model.wellFormed_empty.addTransition 0 0 1 1 (-1)).addTransition 1 0 2 1 (-1)).addTransition
    0 1 2 1 (-5)

theorem deterministic_shortcut : shortcut.Deterministic := by
  have toListed := wellFormed_shortcut.forall_offers
    (show ∀ state ∈ shortcut.states.toList, ∀ offer ∈ (shortcut.actions state).toList,
      ∃ next ∈ shortcut.states.toList, offer.2.toList = [(next, 1)] by decide +kernel)
  intro state offer offered
  obtain ⟨next, -, listEq⟩ := toListed state offer offered
  exact ⟨next, listEq⟩

theorem onlyCosts_shortcut : shortcut.OnlyCosts :=
  wellFormed_shortcut.forall_outgoing (by decide +kernel)

/-- From the beginning of the way to its end. -/
def alongShortcut : Environment Nat Nat Rat :=
  ⟨shortcut, 0, 2⟩

/-- Two episodes of at most three steps, with halved errors and no exploration. -/
def twoEpisodes : LearnerSettings Rat :=
  ⟨1 / 2, 1, 0, 0, 1, 2, 3⟩

/-- Both episodes take the way of two steps, and four steps of value iteration find minus two. -/
theorem valueIteration_le_qLearn_shortcut :
    ∃ learned rest row, ∃ best : Rat,
      qLearn alongShortcut twoEpisodes (⟨[]⟩ : ListedWords) = (.ok learned, rest) ∧
      learned.values[0]? = some row ∧ row.values.max? = some best ∧ -2 ≤ best := by
  have stepsEq : (qLearn alongShortcut twoEpisodes (⟨[]⟩ : ListedWords)).1.toOption.map
      (fun learned => (learned.episodes.map Episode.steps).sum) = some 4 := by decide +kernel
  have bestEq : (shortcut.valueIteration 1 4).1[0]? = some (-2 : Rat) := by decide +kernel
  rcases outcome : qLearn alongShortcut twoEpisodes (⟨[]⟩ : ListedWords) with
    ⟨error | learned, rest⟩
  · rw [outcome] at stepsEq
    cases stepsEq
  · rw [outcome] at stepsEq
    have total : (learned.episodes.map Episode.steps).sum = 4 := Option.some.inj stepsEq
    obtain ⟨row, best, value, found, isBest, valueEq, atLeast⟩ :=
      valueIteration_le_qLearn (show alongShortcut.model.WellFormed from wellFormed_shortcut)
        deterministic_shortcut onlyCosts_shortcut
        (show 0 ≤ twoEpisodes.discount by decide +kernel)
        (show 0 ≤ twoEpisodes.learningRate ∧ twoEpisodes.learningRate ≤ 1 by decide +kernel) outcome
        (show (alongShortcut.model.actions 0).toList ≠ [] by decide)
    rw [total] at valueEq
    cases bestEq.symm.trans valueEq
    exact ⟨learned, rest, row, best, rfl, found, isBest, atLeast⟩

end MarkovDecision
