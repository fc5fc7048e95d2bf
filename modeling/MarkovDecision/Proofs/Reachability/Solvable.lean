import MarkovDecision.Proofs.Model.Tables
import MarkovDecision.Proofs.Reachability.Supersolution

/-!
# Which models can be solved

The probabilities of an accepted table sum to one within a tolerance, and so may sum to slightly
more than one.  The linear programs have one as a hard upper bound of every variable.  If no
distribution on offer exceeds one, all of them are feasible.  But a state that may reach nothing
except targets, under a distribution that exceeds one, would have to be worth more than one, and
no assignment that comes within less than half of the excess meets its constraint.
-/

namespace MarkovDecision

open Std (TreeMap TreeSet TransOrd LawfulEqOrd)

section Slack

namespace LinearProgram

/-- An assignment that misses the range of every variable and every constraint by no more than a
slack. -/
def FeasibleWithin (slack : Rat) (program : LinearProgram Rat) (values : Nat → Rat) : Prop :=
  (∀ index, index < program.unknowns → -slack ≤ values index ∧ values index ≤ 1 + slack) ∧
    ∀ constraint ∈ program.constraints,
      constraint.bound - slack ≤ constraint.combination values

theorem Feasible.within {program : LinearProgram Rat} {values : Nat → Rat}
    (feasible : program.Feasible values) {slack : Rat} (slackNonneg : 0 ≤ slack) :
    program.FeasibleWithin slack values := by
  constructor
  · intro index indexLt
    obtain ⟨nonneg, atMostOne⟩ := feasible.1 index indexLt
    constructor <;> linarith
  · intro constraint member
    exact (sub_le_self _ slackNonneg).trans (feasible.2 constraint member)

end LinearProgram

namespace Solver

/-- The solver refuses a program only if no assignment is feasible within the slack. -/
def RefusesBeyond (slack : Rat) (solver : Solver Rat) (program : LinearProgram Rat) : Prop :=
  solver program = none → ∀ values, ¬program.FeasibleWithin slack values

/-- What the solver answers to a program is feasible within the slack. -/
def AnswersWithin (slack : Rat) (solver : Solver Rat) (program : LinearProgram Rat) : Prop :=
  ∀ solution, solver program = some solution →
    program.FeasibleWithin slack (LinearProgram.assignment solution)

end Solver

end Slack

namespace Model

variable {S A : Type} [Ord S]

/-- The states that a distribution leads to, without the given one. -/
def elsewhere (distribution : Distribution S Rat) (state : S) : LabelSet S :=
  (TreeSet.ofList distribution.keys).erase state

variable [TransOrd S] [LawfulEqOrd S]

theorem contains_elsewhere (distribution : Distribution S Rat) (state other : S) :
    (elsewhere distribution state).contains other = true ↔
      other ≠ state ∧ distribution.contains other = true := by
  classical
  rw [elsewhere, ← TreeSet.mem_iff_contains, TreeSet.mem_erase, TreeSet.mem_ofList,
    List.contains_iff_mem, TreeMap.mem_keys, TreeMap.mem_iff_contains, Ne, Std.compare_eq_iff_eq,
    eq_comm]

theorem contains_elsewhere_of_mem {distribution : Distribution S Rat} {entry : S × Rat}
    (member : entry ∈ distribution.toList) {state : S} (different : entry.1 ≠ state) :
    (elsewhere distribution state).contains entry.1 = true := by
  rw [contains_elsewhere, TreeMap.contains_eq_isSome_getElem?,
    TreeMap.mem_toList_iff_getElem?_eq_some.mp member]
  exact ⟨different, rfl⟩

theorem exists_mem_of_contains_elsewhere {distribution : Distribution S Rat} {state other : S}
    (isElsewhere : (elsewhere distribution state).contains other = true) :
    ∃ probability, (other, probability) ∈ distribution.toList := by
  have present := ((contains_elsewhere distribution state other).mp isElsewhere).2
  rw [TreeMap.contains_eq_isSome_getElem?] at present
  obtain ⟨probability, found⟩ := Option.isSome_iff_exists.mp present
  exact ⟨probability, TreeMap.mem_toList_iff_getElem?_eq_some.mpr found⟩

theorem expected_of_elsewhere_one {distribution : Distribution S Rat} {state : S}
    (values : S → Rat)
    (isOne : ∀ other, (elsewhere distribution state).contains other = true → values other = 1) :
    expected distribution values =
      totalProbability distribution - (1 - values state) * distribution.getD state 0 := by
  classical
  let indicator (other : S) : Rat := if other = state then 1 else 0
  have missing : expected distribution (fun other => 1 - values other) =
      expected distribution fun other => (1 - values state) * indicator other := by
    refine expected_congr fun entry member => ?_
    by_cases isState : entry.1 = state
    · simp [indicator, isState]
    · rw [isOne entry.1 (contains_elsewhere_of_mem member isState)]
      simp [indicator, isState]
  rw [expected_sub, expected_const, mul_one, expected_const_mul,
    expected_indicator distribution state (if_pos rfl) fun other different => if_neg different]
    at missing
  linarith

/-- A distribution that sums to more than the share of a state leads elsewhere. -/
theorem exists_elsewhere {distribution : Distribution S Rat} {state : S}
    (exceeds : distribution.getD state 0 < totalProbability distribution) :
    ∃ other, (elsewhere distribution state).contains other = true := by
  by_contra noOther
  have noValue := expected_of_elsewhere_one (fun _ => 0)
    fun other isOther => (noOther ⟨other, isOther⟩).elim
  rw [expected_const] at noValue
  linarith

variable [Ord A] [TransOrd A] {model : Model S A Rat}

section Excess

variable (wellFormed : model.WellFormed) {state : S} {offer : A × Distribution S Rat}
include wellFormed

/-- A state that goes elsewhere under some action has a variable, if the targets are the states
that it may reach. -/
theorem WellFormed.mem_unsettled_elsewhere (offered : offer ∈ (model.actions state).toList)
    (exceeds : offer.2.getD state 0 < totalProbability offer.2) :
    state ∈ model.unsettled (elsewhere offer.2 state) := by
  obtain ⟨other, isTarget⟩ := exists_elsewhere exceeds
  obtain ⟨probability, member⟩ := exists_mem_of_contains_elsewhere isTarget
  have notTarget : ¬(elsewhere offer.2 state).contains state = true := fun isTarget =>
    ((contains_elsewhere _ _ _).mp isTarget).1 rfl
  have isNext := wellFormed.entry_mem_successors offered member
  have comes : state ∈ model.comingTo (elsewhere offer.2 state) :=
    (wellFormed.mem_comingTo_iff _ state).mpr ⟨other, TreeSet.mem_iff_contains.mpr isTarget,
      wellFormed.contains_entry offered member, Relation.ReflTransGen.single isNext⟩
  exact (wellFormed.mem_unsettled_iff state).mpr ⟨contains_of_offer offered,
    (classification_eq_unknown_iff state).mpr ⟨notTarget, TreeSet.mem_iff_contains.mp comes⟩⟩

omit [TransOrd A] in
/-- The other states of the distribution are targets, so only the state itself has a
coefficient. -/
theorem WellFormed.gathered_elsewhere {own : Nat}
    (listed : (model.unsettled (elsewhere offer.2 state))[own]? = some state)
    {entry : Nat × Rat}
    (member : entry ∈ (gathered (settledValues (model.classify (elsewhere offer.2 state)))
      (positions (model.unsettled (elsewhere offer.2 state))) own offer.2).1.toList) :
    entry.2 = 0 ∨ entry.2 = 1 - offer.2.getD state 0 := by
  have ownIndex := (getElem?_positions_iff nodup_unsettled state own).mpr listed
  rcases gathered_entry ownIndex unsettled_positions_injective member with
    ⟨-, valueEq⟩ | ⟨other, different, otherIndex, valueEq⟩
  · exact Or.inr valueEq
  · left
    have otherListed := (getElem?_positions_iff nodup_unsettled other _).mp otherIndex
    have isUnknown := ((wellFormed.mem_unsettled_iff other).mp
      (List.mem_of_getElem? otherListed)).2
    rw [valueEq, neg_eq_zero]
    apply TreeMap.getD_eq_fallback_of_contains_eq_false
    rw [Bool.eq_false_iff]
    intro present
    rw [classification, if_pos ((contains_elsewhere _ _ _).mpr ⟨different, present⟩)] at isUnknown
    cases isUnknown

theorem WellFormed.expected_extend_elsewhere (offered : offer ∈ (model.actions state).toList)
    (values : Nat → Rat) :
    let worth := model.extend (elsewhere offer.2 state) values
    expected offer.2 worth =
      totalProbability offer.2 - (1 - worth state) * offer.2.getD state 0 := by
  refine expected_of_elsewhere_one _ fun other isTarget => ?_
  obtain ⟨probability, member⟩ := exists_mem_of_contains_elsewhere isTarget
  refine wellFormed.extend_of_target values (wellFormed.contains_entry offered member) ?_
  rw [classification, if_pos isTarget]

/-- A state that may reach nothing but targets, with probabilities that exceed one, would have to
be worth more than one. -/
theorem WellFormed.not_feasibleWithin_of_excess (offered : offer ∈ (model.actions state).toList)
    (nonneg : ∀ entry ∈ offer.2.toList, 0 ≤ entry.2) {slack : Rat} (slackNonneg : 0 ≤ slack)
    (exceeds : 1 + 2 * slack < totalProbability offer.2)
    (leaves : offer.2.getD state 0 < 1 - negligible) (values : Nat → Rat) :
    ¬(model.reachProgram (model.classify (elsewhere offer.2 state))).FeasibleWithin slack
      values := by
  rintro ⟨box, meets⟩
  have visible : negligible < 1 - offer.2.getD state 0 := lt_sub_comm.mp leaves
  have staysLess : 0 < 1 - offer.2.getD state 0 := negligible_pos.trans visible
  obtain ⟨own, listed⟩ := List.mem_iff_getElem?.mp
    (wellFormed.mem_unsettled_elsewhere offered (by linarith))
  have resolved : ∀ entry ∈ (gathered (settledValues (model.classify (elsewhere offer.2 state)))
      (positions (model.unsettled (elsewhere offer.2 state))) own offer.2).1.toList,
        entry.2 = 0 ∨ negligible < |entry.2| := fun entry member =>
    (wellFormed.gathered_elsewhere listed member).imp_right fun valueEq => by
      rw [valueEq, abs_of_pos staysLess]
      exact visible
  obtain ⟨constraint, produced⟩ :
      ∃ constraint, actionConstraint? (settledValues (model.classify (elsewhere offer.2 state)))
        (positions (model.unsettled (elsewhere offer.2 state))) own offer.2 = some constraint :=
    exists_actionConstraint ((getElem?_positions_iff nodup_unsettled state own).mpr listed)
      unsettled_positions_injective leaves
  have missed := meets constraint
    ((mem_constraints_iff constraint).mpr ⟨state, own, listed, offer, offered, produced⟩)
  have difference := combination_sub_bound resolved produced values
  have promised := wellFormed.expected_extend_elsewhere offered values
  dsimp only at promised
  rw [← extend, promised, extend_of_listed values listed] at difference
  have belowOne := (box own (List.getElem?_eq_some_iff.mp listed).1).2
  have scaled : values own * (1 - offer.2.getD state 0) ≤
      (1 + slack) * (1 - offer.2.getD state 0) :=
    mul_le_mul_of_nonneg_right belowOne staysLess.le
  have slackShare := mul_nonneg slackNonneg (getD_nonneg nonneg state)
  linarith

end Excess

section Answers

omit [TransOrd S] [LawfulEqOrd S] [TransOrd A] in
/-- A program with a solution is answered by every solver that refuses no such program. -/
theorem exists_reach_of_feasible {targets : LabelSet S} {values : Nat → Rat}
    (feasible : (model.reachProgram (model.classify targets)).Feasible values) {slack : Rat}
    (slackNonneg : 0 ≤ slack) {solver : Solver Rat}
    (refuses : solver.RefusesBeyond slack (model.reachProgram (model.classify targets))) :
    ∃ reach, model.reach solver targets = .ok reach := by
  unfold Model.reach
  dsimp only
  split
  · exact ⟨_, rfl⟩
  · split
    · rename_i refused
      exact (refuses refused values (feasible.within slackNonneg)).elim
    · exact ⟨_, rfl⟩

omit [TransOrd S] [LawfulEqOrd S] [TransOrd A] in
/-- A program without a solution is refused by every solver that answers with solutions. -/
theorem reach_eq_infeasible {targets : LabelSet S} {slack : Rat}
    (hasUnknown : model.unsettled targets ≠ [])
    (unsolvable : ∀ values,
      ¬(model.reachProgram (model.classify targets)).FeasibleWithin slack values)
    {solver : Solver Rat}
    (answers : solver.AnswersWithin slack (model.reachProgram (model.classify targets))) :
    model.reach solver targets = .error .infeasible := by
  unfold Model.reach
  dsimp only
  split
  · rename_i noUnknown
    exact (hasUnknown (List.isEmpty_iff.mp noUnknown)).elim
  · split
    · rfl
    · rename_i solution solved
      exact (unsolvable _ (answers solution solved)).elim

end Answers

section Tables

variable {costs : CostTable S A Rat} {distributions : DistributionTable S A Rat}

omit [TransOrd S] [LawfulEqOrd S] in
theorem nonneg_of_balanced {distribution : Distribution S Rat}
    (balanced : Balanced distribution) : ∀ entry ∈ distribution.toList, 0 ≤ entry.2 := by
  intro entry member
  have accepted := balanced.probabilities entry member
  rw [isProbability, Bool.and_eq_true, Bool.not_eq_true', decide_eq_false_iff_not] at accepted
  exact not_lt.mp accepted.2

omit [Ord A] [TransOrd A] in
theorem equiv_of_zero_add {first second : Distribution S Rat}
    (entryEq : ∀ target : S, first[target]? = second[target]?.map (0 + ·)) :
    first.Equiv second := by
  refine TreeMap.Equiv.of_forall_constGet?_eq fun target : S => ?_
  rw [entryEq]
  simp

theorem Describes.substochastic (describes : Describes costs distributions)
    (totals : ∀ state action distribution, Offers costs distributions state action distribution →
      totalProbability distribution ≤ 1) :
    (construct (tableCalls costs distributions)).Substochastic where
  nonneg state offer offered := by
    obtain ⟨distribution, isOffered, entryEq⟩ := exists_offers_of_mem offered
    rw [(equiv_of_zero_add entryEq).toList_eq]
    exact nonneg_of_balanced (describes.balanced isOffered)
  total_le_one state offer offered := by
    obtain ⟨distribution, isOffered, entryEq⟩ := exists_offers_of_mem offered
    rw [totalProbability, (equiv_of_zero_add entryEq).toList_eq]
    exact totals state offer.1 distribution isOffered

/-- A distribution on offer that exceeds one makes the problem of reaching the other states that it
leads to infeasible. -/
theorem Describes.infeasible_of_excess (describes : Describes costs distributions) {state : S}
    {action : A} {distribution : Distribution S Rat}
    (isOffered : Offers costs distributions state action distribution) {slack : Rat}
    (slackNonneg : 0 ≤ slack) (exceeds : 1 + 2 * slack < totalProbability distribution)
    (leaves : distribution.getD state 0 < 1 - negligible) :
    let model := construct (tableCalls costs distributions)
    let targets := elsewhere distribution state
    model.unsettled targets ≠ [] ∧
      ∀ values, ¬(model.reachProgram (model.classify targets)).FeasibleWithin slack values := by
  have wellFormed := wellFormed_construct (tableCalls costs distributions)
  have isPositive : (0 : Rat) < negligible := negligible_pos
  have moves : distribution.getD state 0 < totalProbability distribution := by linarith
  obtain ⟨other, isElsewhere⟩ := exists_elsewhere moves
  obtain ⟨offer, offered, entryEq⟩ :=
    isOffered.exists_mem ((contains_elsewhere _ _ _).mp isElsewhere).2
  have same : offer.2.Equiv distribution := equiv_of_zero_add entryEq
  have sameTargets : elsewhere distribution state = elsewhere offer.2 state := by
    rw [elsewhere, elsewhere, same.keys_eq]
  have sameTotal : totalProbability offer.2 = totalProbability distribution := by
    rw [totalProbability, totalProbability, same.toList_eq]
  have sameShare : offer.2.getD state 0 = distribution.getD state 0 := same.getD_eq
  have nonneg : ∀ entry ∈ offer.2.toList, 0 ≤ entry.2 := by
    rw [same.toList_eq]
    exact nonneg_of_balanced (describes.balanced isOffered)
  rw [← sameTotal] at exceeds moves
  rw [← sameShare] at leaves moves
  dsimp only
  rw [sameTargets]
  exact ⟨List.ne_nil_of_mem (wellFormed.mem_unsettled_elsewhere offered moves),
    wellFormed.not_feasibleWithin_of_excess offered nonneg slackNonneg exceeds leaves⟩

/-- The reachability problems of an accepted model can all be solved if no distribution on offer
sums to more than one.  Where one does, and not only to stay, the problem whose targets are the
other states that it leads to cannot, not even within a slack of less than half of the excess. -/
theorem ofTables_feasible_unless_excess {model : Model S A Rat}
    (built : ofTables costs distributions = .ok model) :
    ((∀ state action distribution, Offers costs distributions state action distribution →
        totalProbability distribution ≤ 1) →
      ∀ targets,
        (∃ values, (model.reachProgram (model.classify targets)).Feasible values) ∧
          ∀ (slack : Rat) (solver : Solver Rat), 0 ≤ slack →
            solver.RefusesBeyond slack (model.reachProgram (model.classify targets)) →
              ∃ reach, model.reach solver targets = .ok reach) ∧
      ∀ state action distribution slack,
        Offers costs distributions state action distribution → 0 ≤ slack →
          1 + 2 * slack < totalProbability distribution →
            distribution.getD state 0 < 1 - negligible →
              (∀ values, ¬(model.reachProgram (model.classify
                (elsewhere distribution state))).FeasibleWithin slack values) ∧
                ∀ solver : Solver Rat,
                  solver.AnswersWithin slack (model.reachProgram (model.classify
                    (elsewhere distribution state))) →
                      model.reach solver (elsewhere distribution state) = .error .infeasible := by
  obtain ⟨describes, rfl⟩ := (ofTables_eq_ok_iff costs distributions model).mp built
  constructor
  · intro totals targets
    have feasible : ((construct (tableCalls costs distributions)).reachProgram
        ((construct (tableCalls costs distributions)).classify targets)).Feasible fun _ => 1 :=
      (wellFormed_construct _).ones_feasible (describes.substochastic totals)
    exact ⟨⟨_, feasible⟩, fun slack solver slackNonneg refuses =>
      exists_reach_of_feasible feasible slackNonneg refuses⟩
  · intro state action distribution slack isOffered slackNonneg exceeds leaves
    obtain ⟨hasUnknown, unsolvable⟩ :=
      describes.infeasible_of_excess isOffered slackNonneg exceeds leaves
    exact ⟨unsolvable, fun solver answers => reach_eq_infeasible hasUnknown unsolvable answers⟩

/-- One action at state 0. -/
def oneAction : CostTable Nat Nat Rat :=
  TreeMap.ofList [(0, TreeMap.ofList [(0, (-1 : Rat))])]

def toOne (probability : Rat) : Distribution Nat Rat :=
  TreeMap.ofList [(1, probability)]

/-- The action leads to state 1 with a given probability. -/
def straightOn (probability : Rat) : DistributionTable Nat Nat Rat :=
  TreeMap.ofList [(0, toOne probability)]

theorem totalProbability_toOne (probability : Rat) :
    totalProbability (toOne probability) = probability :=
  List.sum_singleton

theorem describes_straightOn {probability : Rat} (nonneg : 0 ≤ probability)
    (near : |probability - 1| ≤ sumTolerance) : Describes oneAction (straightOn probability) := by
  intro entry member offer offerMem
  have entries : oneAction.toList = [(0, TreeMap.ofList [(0, (-1 : Rat))])] := rfl
  rw [entries, List.mem_singleton] at member
  have offers : entry.2.toList = [(0, (-1 : Rat))] := by
    rw [member]
    rfl
  rw [offers, List.mem_singleton] at offerMem
  refine ⟨toOne probability, by rw [offerMem]; rfl, ?_, ?_⟩
  · intro target isTarget
    have targets : (toOne probability).toList = [(1, probability)] := rfl
    rw [targets, List.mem_singleton] at isTarget
    rw [isTarget, isProbability, Bool.and_eq_true, Bool.not_eq_true', decide_eq_false_iff_not]
    exact ⟨rfl, not_lt.mpr nonneg⟩
  · have sumEq : (toOne probability).values.foldl (· + ·) 0 = probability := zero_add probability
    rw [sumEq, magnitude_eq_abs]
    exact not_lt.mpr near

theorem eq_of_offers_straightOn {probability : Rat} {state action : Nat}
    {distribution : Distribution Nat Rat}
    (offered : Offers oneAction (straightOn probability) state action distribution) :
    distribution = toOne probability := by
  obtain ⟨-, -, -, -, found⟩ := offered
  have member := TreeMap.mem_toList_iff_getElem?_eq_some.mpr found
  have entries : (straightOn probability).toList = [(0, toOne probability)] := rfl
  rw [entries, List.mem_singleton] at member
  exact congrArg Prod.snd member

theorem offers_straightOn (probability : Rat) :
    Offers oneAction (straightOn probability) 0 0 (toOne probability) :=
  ⟨TreeMap.ofList [(0, (-1 : Rat))], -1, rfl, rfl, rfl⟩

/-- The theorem at work on a certain step, and on one whose probability exceeds one by half of
what the tables may. -/
theorem ofTables_feasible_unless_excess_straightOn :
    (∃ model, ofTables oneAction (straightOn 1) = .ok model ∧
      ∀ targets, ∃ values, (model.reachProgram (model.classify targets)).Feasible values) ∧
    ∃ model, ofTables oneAction (straightOn (1 + 1 / 2000000)) = .ok model ∧
      ∀ values, ¬(model.reachProgram (model.classify {1})).FeasibleWithin (Number.decimal 8)
        values := by
  have tolerance : (sumTolerance : Rat) = 1 / 1000000 := by norm_num [sumTolerance, Number.decimal]
  constructor
  · have built := (ofTables_eq_ok_iff oneAction (straightOn 1) _).mpr
      ⟨describes_straightOn zero_le_one (by norm_num [tolerance]), rfl⟩
    refine ⟨_, built, fun targets => ((ofTables_feasible_unless_excess built).1 ?_ targets).1⟩
    intro state action distribution offered
    rw [eq_of_offers_straightOn offered, totalProbability_toOne]
  · have built := (ofTables_eq_ok_iff oneAction (straightOn (1 + 1 / 2000000)) _).mpr
      ⟨describes_straightOn (by norm_num) (by norm_num [tolerance, abs_of_pos]), rfl⟩
    have targets : elsewhere (toOne (1 + 1 / 2000000)) 0 = {1} := rfl
    rw [← targets]
    refine ⟨_, built, ((ofTables_feasible_unless_excess built).2 0 0 _ (Number.decimal 8)
      (offers_straightOn _) (decimal_pos 8).le ?_ ?_).1⟩
    · rw [totalProbability_toOne]
      norm_num [Number.decimal]
    · have noShare : (toOne (1 + 1 / 2000000)).getD 0 0 = 0 := rfl
      rw [noShare, sub_pos]
      exact negligible_lt_one

end Tables

end Model

end MarkovDecision
