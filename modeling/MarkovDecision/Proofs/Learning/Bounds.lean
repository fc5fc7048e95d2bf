import Mathlib.Algebra.Order.Ring.Abs
import Mathlib.Tactic.FieldSimp
import MarkovDecision.Proofs.Learning.Answers

/-!
# Bounds on learned values

A range of numbers that contains zero and what lies between two of its numbers, and that is not left
when a reward is added to a discounted number, contains all values that the learners ever have.
In Q-learning a value moves towards such a sum.  In Monte Carlo control it moves towards the return
of the rest of an episode, which is built up from zero by such sums, by a fraction that is at most
one because the visit itself has been counted.

Two ranges are of interest: the numbers that are at most as large as the discounted sum of the
largest weights, and the numbers that are not positive.
-/

namespace MarkovDecision

open Std (TreeMap TransOrd)

variable {S A : Type} [Ord S] [Ord A]

/-- A range of numbers that learning from genuine visits does not leave. -/
structure Environment.Confines (environment : Environment S A Rat) (discount : Rat)
    (range : Rat → Prop) : Prop where
  zero : range 0
  between : ∀ {value goal rate : Rat}, range value → range goal → 0 ≤ rate → rate ≤ 1 →
    range (value + rate * (goal - value))
  gain : ∀ {visit : Visit S A Rat}, environment.Genuine visit → ∀ {value : Rat}, range value →
    range (visit.reward + discount * value)

section Counting

variable [TransOrd S] [TransOrd A]

theorem visitCount_countVisit {R : Type} (counts : VisitCounts S A) (visit : Visit S A R)
    (state : S) (action : A) :
    visitCount (countVisit counts visit) state action = visitCount counts state action +
      if compare visit.state state = .eq ∧ compare visit.action action = .eq then 1 else 0 := by
  unfold visitCount countVisit
  rw [TreeMap.getElem?_alter]
  by_cases sameState : compare visit.state state = .eq
  · rw [if_pos sameState, Option.bind_some, TreeMap.getElem?_alter,
      ← TreeMap.getElem?_congr sameState]
    by_cases sameAction : compare visit.action action = .eq
    · rw [if_pos sameAction, if_pos ⟨sameState, sameAction⟩]
      cases counts[visit.state]? with
      | none => simp
      | some row => simp [TreeMap.getElem?_congr sameAction]
    · rw [if_neg sameAction, if_neg fun same => sameAction same.2]
      cases counts[visit.state]? with
      | none => simp
      | some row => simp
  · rw [if_neg sameState, if_neg fun same => sameState same.1, Nat.add_zero]

theorem visitCount_pos {R : Type} {visits : List (Visit S A R)} {visit : Visit S A R}
    (member : visit ∈ visits) (counts : VisitCounts S A) :
    0 < visitCount (visits.foldl countVisit counts) visit.state visit.action := by
  refine foldl_of_mem (motive := fun counts => 0 < visitCount counts visit.state visit.action)
    ?_ member ?_ counts
  · intro other _ before isPositive
    rw [visitCount_countVisit]
    exact Nat.add_pos_left isPositive _
  · intro before
    rw [visitCount_countVisit, if_pos ⟨Std.ReflCmp.compare_self, Std.ReflCmp.compare_self⟩]
    exact Nat.succ_pos _

end Counting

section Confined

variable [TransOrd S] [TransOrd A] {environment : Environment S A Rat}
  {settings : LearnerSettings Rat} {range : Rat → Prop}
  (confines : environment.Confines settings.discount range) {memory : Memory S A Rat}
include confines

omit [TransOrd S] [TransOrd A] in
theorem Environment.Confines.bestValue (all : AllValues range memory.values) (state : S) :
    range (bestValue memory.values state) := by
  cases found : memory.values[state]? with
  | none =>
      unfold MarkovDecision.bestValue
      rw [found]
      exact confines.zero
  | some row =>
      rw [bestValue_eq_greatest found]
      by_cases isEmpty : row.values = []
      · rw [isEmpty]
        exact confines.zero
      · have isGreatest := greatest_mem isEmpty
        rw [values_eq_map] at isGreatest
        obtain ⟨entry, member, valueEq⟩ := List.mem_map.mp isGreatest
        rw [values_eq_map, ← valueEq]
        exact all state row found entry member

theorem Environment.Confines.learnVisit
    (isRate : 0 ≤ settings.learningRate ∧ settings.learningRate ≤ 1)
    (all : AllValues range memory.values) {visit : Visit S A Rat}
    (genuine : environment.Genuine visit) :
    AllValues range (learnVisit settings memory visit).values := by
  have goalInside := confines.gain genuine (confines.bestValue all visit.next)
  refine all.update confines.zero (fun value inside => ?_) visit.state visit.action
  exact confines.between inside goalInside isRate.1 isRate.2

/-- The values stay in the range while the visits of an episode are gone through backwards, and so
does the return that follows. -/
theorem Environment.Confines.backUps {counts : VisitCounts S A} {visits : List (Visit S A Rat)}
    (genuine : ∀ visit ∈ visits, environment.Genuine visit)
    (counted : ∀ visit ∈ visits, 0 < visitCount counts visit.state visit.action) {following : Rat}
    (inside : range following) (all : AllValues range memory.values) :
    AllValues range
      (visits.foldl (backUp settings.discount counts) (following, memory)).2.values := by
  induction visits generalizing following memory with
  | nil => exact all
  | cons visit visits ih =>
      obtain ⟨isGenuine, genuineLater⟩ := List.forall_mem_cons.mp genuine
      obtain ⟨isCounted, countedLater⟩ := List.forall_mem_cons.mp counted
      have gainInside : range (settings.discount * following + visit.reward) := by
        rw [add_comm]
        exact confines.gain isGenuine inside
      refine ih genuineLater countedLater gainInside
        (all.update confines.zero (fun value valueInside => ?_) visit.state visit.action)
      have atLeastOne : (1 : Rat) ≤ visitCount counts visit.state visit.action :=
        Nat.one_le_cast.mpr isCounted
      rw [div_eq_inv_mul]
      exact confines.between valueInside gainInside
        (inv_nonneg.mpr (zero_le_one.trans atLeastOne)) (inv_le_one_of_one_le₀ atLeastOne)

end Confined

namespace Learner

variable {G N : Type} [RandomSource G] {environment : Environment S A Rat}
  {settings : LearnerSettings Rat} {learner : Learner S A Rat N} {found final : N × Memory S A Rat}
  {source rest : G} {episodes : List (Episode S A Rat)} {count : Nat} {exploration : Rat}
  {motive : Memory S A Rat → Prop}

/-- What every genuine visit and every settlement of genuine visits preserves holds after a
session. -/
theorem Session.preserves
    (session : learner.Session environment settings count exploration found source episodes final
      rest)
    (learn : ∀ {memory visit}, motive memory → environment.Genuine visit →
      motive (learner.learn memory visit))
    (settle : ∀ {visits notes memory}, (∀ visit ∈ visits, environment.Genuine visit) →
      motive memory → motive (learner.settle visits (notes, memory)).2)
    (atStart : motive found.2) : motive final.2 := by
  induction session with
  | done => exact atStart
  | episode walks _ ih =>
      refine ih (settle walks.genuine ?_)
      rw [walks.final_eq]
      exact List.foldlRecOn _ _ atStart fun memory holding visit member =>
        learn holding (walks.genuine visit member)

end Learner

section Answers

variable [TransOrd S] [TransOrd A] {G : Type} [RandomSource G] {environment : Environment S A Rat}
  {settings : LearnerSettings Rat} {range : Rat → Prop}
  (wellFormed : environment.model.WellFormed)
  (confines : environment.Confines settings.discount range) {source rest : G}
  {learned : Learned S A Rat}
include wellFormed confines

theorem Environment.Confines.zeroValues : AllValues range environment.zeroValues := by
  intro state row isRow entry member
  rw [eq_zero_of_zeroValues wellFormed isRow (getElem?_of_mem_toList member)]
  exact confines.zero

theorem Environment.Confines.qLearn
    (isRate : 0 ≤ settings.learningRate ∧ settings.learningRate ≤ 1)
    (isLearned : qLearn environment settings source = (.ok learned, rest)) :
    AllValues range learned.values := by
  rw [Learner.qLearn_eq_run] at isLearned
  obtain ⟨last, session⟩ := Learner.session_of_run (Learner.revising_qLearner settings) wellFormed
    isLearned
  exact session.preserves (motive := fun memory => AllValues range memory.values)
    (fun all genuine => confines.learnVisit isRate all genuine) (fun _ all => all)
    (confines.zeroValues wellFormed)

theorem Environment.Confines.monteCarlo
    (isLearned : monteCarlo environment settings source = (.ok learned, rest)) :
    AllValues range learned.values := by
  rw [Learner.monteCarlo_eq_run] at isLearned
  obtain ⟨last, session⟩ := Learner.session_of_run (Learner.revising_monteCarloLearner settings)
    wellFormed isLearned
  refine session.preserves (motive := fun memory => AllValues range memory.values)
    (fun all _ => all) (fun {visits} _ _ genuine all => ?_) (confines.zeroValues wellFormed)
  refine confines.backUps ?_ ?_ confines.zero all
  · intro visit member
    exact genuine visit (List.mem_reverse.mp member)
  · intro visit member
    exact visitCount_pos (List.mem_reverse.mp member) _

end Answers

section Ranges

theorem add_mul_sub_le {high value goal rate : Rat} (isNonneg : 0 ≤ rate) (atMostOne : rate ≤ 1)
    (valueBelow : value ≤ high) (goalBelow : goal ≤ high) :
    value + rate * (goal - value) ≤ high := by
  calc value + rate * (goal - value) = (1 - rate) * value + rate * goal := by ring
    _ ≤ (1 - rate) * high + rate * high := by gcongr
    _ = high := by ring

/-- A reward and a discounted number after it are not larger than the discounted sum of the largest
rewards, if the number is not. -/
theorem abs_add_mul_le {discount limit reward value : Rat}
    (isDiscount : 0 ≤ discount ∧ discount < 1) (rewardInside : |reward| ≤ limit)
    (valueInside : |value| ≤ limit / (1 - discount)) :
    |reward + discount * value| ≤ limit / (1 - discount) := by
  have isPositive : 0 < 1 - discount := sub_pos.mpr isDiscount.2
  calc |reward + discount * value| ≤ |reward| + |discount * value| := abs_add_le _ _
    _ = |reward| + discount * |value| := by rw [abs_mul, abs_of_nonneg isDiscount.1]
    _ ≤ limit + discount * (limit / (1 - discount)) :=
      add_le_add rewardInside (mul_le_mul_of_nonneg_left valueInside isDiscount.1)
    _ = limit / (1 - discount) := by
      field_simp
      ring

/-- No weight is larger than a limit, in either direction. -/
def Model.WeightsWithin (model : Model S A Rat) (limit : Rat) : Prop :=
  ∀ state, ∀ transition ∈ model.outgoing state, |transition.weight| ≤ limit

variable [TransOrd S] [TransOrd A] {environment : Environment S A Rat}
  {discount : Rat} (isDiscount : 0 ≤ discount ∧ discount < 1)

/-- The reward of a genuine visit is the weight of a transition. -/
theorem Environment.Genuine.exists_transition (wellFormed : environment.model.WellFormed)
    {visit : Visit S A Rat} (genuine : environment.Genuine visit) :
    ∃ transition ∈ environment.model.outgoing visit.state, visit.reward = transition.weight := by
  obtain ⟨⟨distribution, offered, drawable⟩, rewardEq⟩ := genuine
  obtain ⟨transition, found⟩ := wellFormed.exists_transition?_eq offered drawable.contains
  rw [Model.weight?_some, found] at rewardEq
  exact ⟨transition, (Model.transition?_eq_some found).1, rewardEq⟩

include isDiscount

theorem confines_within (wellFormed : environment.model.WellFormed) {limit : Rat}
    (nonneg : 0 ≤ limit) (within : environment.model.WeightsWithin limit) :
    environment.Confines discount fun value => |value| ≤ limit / (1 - discount) where
  zero := by
    rw [abs_zero]
    exact div_nonneg nonneg (sub_nonneg.mpr isDiscount.2.le)
  between valueInside goalInside isNonneg atMostOne := by
    rw [abs_le] at valueInside goalInside ⊢
    exact ⟨le_add_mul_sub isNonneg atMostOne valueInside.1 goalInside.1,
      add_mul_sub_le isNonneg atMostOne valueInside.2 goalInside.2⟩
  gain genuine _ inside := by
    obtain ⟨transition, leaves, rewardEq⟩ := genuine.exists_transition wellFormed
    rw [rewardEq]
    exact abs_add_mul_le isDiscount (within _ transition leaves) inside

theorem confines_nonpos (wellFormed : environment.model.WellFormed)
    (onlyCosts : environment.model.OnlyCosts) : environment.Confines discount (· ≤ 0) where
  zero := le_refl 0
  between valueInside goalInside isNonneg atMostOne :=
    add_mul_sub_le isNonneg atMostOne valueInside goalInside
  gain genuine _ inside := by
    obtain ⟨transition, leaves, rewardEq⟩ := genuine.exists_transition wellFormed
    rw [rewardEq]
    exact add_nonpos (onlyCosts _ transition leaves)
      (mul_nonpos_of_nonneg_of_nonpos isDiscount.1 inside)

end Ranges

/-- What both learners answer with, Q-learning with a learning rate from zero to one, are values in
a range only. -/
def LearnsWithin (G : Type) [RandomSource G] (environment : Environment S A Rat)
    (settings : LearnerSettings Rat) (range : Rat → Prop) : Prop :=
  ∀ (source rest : G) (learned : Learned S A Rat),
    (0 ≤ settings.learningRate ∧ settings.learningRate ≤ 1 →
      qLearn environment settings source = (.ok learned, rest) → AllValues range learned.values) ∧
    (monteCarlo environment settings source = (.ok learned, rest) → AllValues range learned.values)

section Main

variable [TransOrd S] [TransOrd A] {G : Type} [RandomSource G] {environment : Environment S A Rat}
  {settings : LearnerSettings Rat}

omit [TransOrd S] in
/-- Where there is a value there is a transition, so the limit on weights is not negative. -/
theorem Covers.limit_nonneg {model : Model S A Rat} {values : ActionValues S A Rat}
    (covers : Covers model values) {limit : Rat} (within : model.WeightsWithin limit) {state : S}
    {row : TreeMap A Rat} (isRow : values[state]? = some row) {entry : A × Rat}
    (member : entry ∈ row.toList) : 0 ≤ limit := by
  have contained : row.contains entry.1 = true := by
    rw [TreeMap.contains_eq_isSome_getElem?, getElem?_of_mem_toList member]
    rfl
  obtain ⟨transition, leaves, -⟩ :=
    (model.contains_actions state entry.1).mp ((covers.row_iff isRow entry.1).mp contained)
  exact (abs_nonneg transition.weight).trans (within state transition leaves)

/-- What is learned with a discount factor below one is at most as large as the discounted sum of
the largest weights, and it is not positive if no weight is. -/
theorem learnsWithin_of_weights (wellFormed : environment.model.WellFormed)
    (isDiscount : 0 ≤ settings.discount ∧ settings.discount < 1) :
    (∀ limit, environment.model.WeightsWithin limit →
      LearnsWithin G environment settings fun value => |value| ≤ limit / (1 - settings.discount)) ∧
    (environment.model.OnlyCosts → LearnsWithin G environment settings (· ≤ 0)) := by
  constructor
  · intro limit within source rest learned
    have confines (nonneg : 0 ≤ limit) := confines_within isDiscount wellFormed nonneg within
    constructor
    · intro isRate isLearned state row isRow entry member
      have ran := isLearned
      rw [Learner.qLearn_eq_run] at ran
      have inOrder := Learner.inOrder_of_run (Learner.revising_qLearner settings) wellFormed ran
      have nonneg := inOrder.covers.limit_nonneg within isRow member
      exact (confines nonneg).qLearn wellFormed isRate isLearned state row isRow entry member
    · intro isLearned state row isRow entry member
      have ran := isLearned
      rw [Learner.monteCarlo_eq_run] at ran
      have inOrder := Learner.inOrder_of_run (Learner.revising_monteCarloLearner settings)
        wellFormed ran
      have nonneg := inOrder.covers.limit_nonneg within isRow member
      exact (confines nonneg).monteCarlo wellFormed isLearned state row isRow entry member
  · intro onlyCosts source rest learned
    have confines := confines_nonpos isDiscount wellFormed onlyCosts
    exact ⟨confines.qLearn wellFormed, confines.monteCarlo wellFormed⟩

end Main

/-- Two episodes with a discount factor of one half, and halved errors. -/
def halvedEpisodes : LearnerSettings Rat :=
  ⟨1 / 2, 1 / 2, 0, 0, 1, 2, 3⟩

/-- No weight of the way is larger than five, so nothing that is learned on it is larger than
ten or positive. -/
theorem learnsWithin_of_weights_shortcut :
    alongShortcut.model.WellFormed ∧
      (0 ≤ halvedEpisodes.discount ∧ halvedEpisodes.discount < 1) ∧
      alongShortcut.model.WeightsWithin 5 ∧ alongShortcut.model.OnlyCosts ∧
      LearnsWithin ListedWords alongShortcut halvedEpisodes
        (fun value => |value| ≤ 5 / (1 - halvedEpisodes.discount)) ∧
      LearnsWithin ListedWords alongShortcut halvedEpisodes (· ≤ 0) := by
  have wellFormed : alongShortcut.model.WellFormed := wellFormed_shortcut
  have isDiscount : 0 ≤ halvedEpisodes.discount ∧ halvedEpisodes.discount < 1 := by decide +kernel
  have within : alongShortcut.model.WeightsWithin 5 :=
    wellFormed_shortcut.forall_outgoing (by decide +kernel)
  obtain ⟨ofWeights, ofCosts⟩ := learnsWithin_of_weights (G := ListedWords) wellFormed isDiscount
  exact ⟨wellFormed, isDiscount, within, onlyCosts_shortcut, ofWeights 5 within,
    ofCosts onlyCosts_shortcut⟩

end MarkovDecision
