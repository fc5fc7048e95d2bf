import MarkovDecision.Distance
import MarkovDecision.Proofs.Model.Connectivity
import MarkovDecision.Proofs.Numbers

/-!
# What the distances promise

Rounds of relaxation end with distances that no arc can shorten, whatever the order in which arcs
were relaxed.  So the distances are a potential: on the way along a transition to a state at a
finite distance, that of the state that is left is finite, too, and it is at most the other one less
the weight of the transition.  No arc leads to a target, so every target keeps the distance zero.

Every state of the model has an entry in the distances to the targets.
-/

namespace MarkovDecision

open Std (TreeMap TransOrd LawfulEqOrd)

section Relaxation

variable {S R : Type} [Ord S] [TransOrd S] [LawfulEqOrd S] [Number R]

omit [TransOrd S] [LawfulEqOrd S] in
theorem recorded_congr {distances others : Distances S R} {state : S}
    (sameEntry : distances[state]? = others[state]?) :
    recorded distances state = recorded others state := by
  rw [recorded, recorded, sameEntry]

omit [LawfulEqOrd S] in
@[simp]
theorem recorded_insert_self (distances : Distances S R) (state : S) (distance : Option R) :
    recorded (distances.insert state distance) state = distance := by
  rw [recorded, TreeMap.getElem?_insert_self, Option.getD_some]

theorem recorded_insert_of_ne (distances : Distances S R) {label state : S} (distance : Option R)
    (different : label ≠ state) :
    recorded (distances.insert label distance) state = recorded distances state := by
  apply recorded_congr
  rw [TreeMap.getElem?_insert, if_neg fun same => different (Std.compare_eq_iff_eq.mp same)]

omit [LawfulEqOrd S] in
@[simp]
theorem recorded_empty (state : S) : recorded (∅ : Distances S R) state = Number.infinity? := by
  rw [recorded, TreeMap.getElem?_emptyc, Option.getD_none]

theorem recorded_relax_of_ne (progress : Distances S R × Bool) {arc : Arc S R} {state : S}
    (notHead : arc.head ≠ state) :
    recorded (relax progress arc).1 state = recorded progress.1 state := by
  unfold relax
  split
  · exact recorded_insert_of_ne _ _ notHead
  · rfl

theorem recorded_relaxRounds_of_notHead {arcs : List (Arc S R)} {state : S}
    (notHead : ∀ arc ∈ arcs, arc.head ≠ state) (rounds : Nat) (distances : Distances S R) :
    recorded (relaxRounds arcs rounds distances) state = recorded distances state := by
  have oneRound (remaining : List (Arc S R)) (notHead : ∀ arc ∈ remaining, arc.head ≠ state)
      (progress : Distances S R × Bool) :
      recorded (remaining.foldl relax progress).1 state = recorded progress.1 state := by
    induction remaining generalizing progress with
    | nil => rfl
    | cons arc remaining ih =>
        rw [List.foldl_cons, ih fun other member => notHead other (List.mem_cons_of_mem arc member),
          recorded_relax_of_ne progress (notHead arc (by simp))]
  induction rounds generalizing distances with
  | zero => rfl
  | succ rounds ih =>
      have unchanged := oneRound arcs notHead (distances, false)
      rw [relaxRounds]
      generalize arcs.foldl relax (distances, false) = progress at unchanged ⊢
      dsimp only
      split
      · rw [ih, unchanged]
      · exact unchanged

omit [TransOrd S] [LawfulEqOrd S] in
theorem shortens_of_distancesFrom {arcs : List (Arc S R)} {rounds : Nat} {start : S}
    {distances : Distances S R} (found : distancesFrom arcs rounds start = some distances) :
    ∀ arc ∈ arcs, arc.shortens distances = false := by
  unfold distancesFrom at found
  dsimp only at found
  split at found
  · cases found
  · rename_i settled
    cases found
    intro arc member
    rw [Bool.eq_false_iff]
    intro shortens
    exact settled (List.any_eq_true.mpr ⟨arc, member, shortens⟩)

theorem recorded_distancesFrom_of_notHead {arcs : List (Arc S R)} {rounds : Nat} {start state : S}
    {distances : Distances S R} (found : distancesFrom arcs rounds start = some distances)
    (notHead : ∀ arc ∈ arcs, arc.head ≠ state) :
    (start = state → recorded distances state = some 0) ∧
      (start ≠ state → recorded distances state = Number.infinity?) := by
  unfold distancesFrom at found
  dsimp only at found
  split at found
  · cases found
  · cases found
    rw [recorded_relaxRounds_of_notHead notHead]
    constructor
    · rintro rfl
      exact recorded_insert_self _ _ _
    · intro different
      rw [recorded_insert_of_ne _ _ different, recorded_empty]

end Relaxation

namespace Model

variable {S A R : Type} [Ord S] [Number R]

omit [Ord S] [Number R] in
theorem mem_insertByNumber_iff (added entry : S × Transition S A R)
    (entries : List (S × Transition S A R)) :
    entry ∈ insertByNumber added entries ↔ entry = added ∨ entry ∈ entries := by
  induction entries with
  | nil => simp [insertByNumber]
  | cons first rest ih =>
      rw [insertByNumber]
      split
      · simp
      · rw [List.mem_cons, ih, List.mem_cons]
        exact or_left_comm

omit [Number R] in
theorem mem_transitions_iff (model : Model S A R) (entry : S × Transition S A R) :
    entry ∈ model.transitions ↔ entry ∈ model.transitionsByState := by
  unfold transitions
  induction model.transitionsByState with
  | nil => simp
  | cons first rest ih => rw [List.foldr_cons, mem_insertByNumber_iff, ih, List.mem_cons]

variable [TransOrd S] [LawfulEqOrd S] [Ord A]

/-- The arcs are the reversed transitions of the states that are not targets. -/
theorem WellFormed.mem_reversedArcs_iff {model : Model S A R} (wellFormed : model.WellFormed)
    (targets : LabelSet S) (arc : Arc S R) :
    arc ∈ model.reversedArcs targets ↔
      ∃ source transition, transition ∈ model.outgoing source ∧
        ¬targets.contains source = true ∧
          arc = ⟨transition.target, source, transitionLength transition.weight⟩ := by
  let kept := model.transitions.filter fun entry => !targets.contains entry.1
  have keptIff (entry : S × Transition S A R) :
      entry ∈ kept ↔ entry.2 ∈ model.outgoing entry.1 ∧ ¬targets.contains entry.1 = true := by
    simp only [kept, List.mem_filter, mem_transitions_iff, Bool.not_eq_true', Bool.not_eq_true]
    rw [← wellFormed.mem_transitionsByState_iff]
  have gathered (state : S) := mem_getD_foldl_gather
    (fun entry : S × Transition S A R => entry.2.target)
    (fun entry : S × Transition S A R =>
      (⟨entry.2.target, entry.1, transitionLength entry.2.weight⟩ : Arc S R)) kept ∅ state arc
  have listed : arc ∈ model.reversedArcs targets ↔ ∃ state ∈ model.states.toList,
      ∃ entry ∈ kept, entry.2.target = state ∧
        (⟨entry.2.target, entry.1, transitionLength entry.2.weight⟩ : Arc S R) = arc := by
    simp only [TreeMap.getD_emptyc, List.not_mem_nil, false_or] at gathered
    simp only [← gathered]
    exact List.mem_flatMap
  rw [listed]
  constructor
  · rintro ⟨state, -, entry, member, -, arcEq⟩
    obtain ⟨leaves, noTarget⟩ := (keptIff entry).mp member
    exact ⟨entry.1, entry.2, leaves, noTarget, arcEq.symm⟩
  · rintro ⟨source, transition, leaves, noTarget, arcEq⟩
    exact ⟨transition.target,
      (wellFormed.mem_states_iff _).mpr (wellFormed.closed source transition leaves),
      (source, transition), (keptIff _).mpr ⟨leaves, noTarget⟩, rfl, arcEq.symm⟩

theorem WellFormed.head_mem_states {model : Model S A R} (wellFormed : model.WellFormed)
    {targets : LabelSet S} (arc : Arc S R) (member : arc ∈ model.reversedArcs targets) :
    arc.head ∈ model.states.toList := by
  obtain ⟨source, transition, leaves, -, rfl⟩ :=
    (wellFormed.mem_reversedArcs_iff targets arc).mp member
  exact (wellFormed.mem_states_iff source).mpr (contains_of_mem_outgoing leaves)

/-- The shorter of two distances, the second of equal ones. -/
def lesser (first second : Option R) : Option R :=
  if shorter first second then first else second

omit [LawfulEqOrd S] [TransOrd S] [Ord A] in
/-- What the merging of two tables does at one state. -/
def takeShorterAt (other best : Distances S R) (state : S) : Distances S R :=
  if shorter (recorded other state) (recorded best state) then
    best.insert state (recorded other state)
  else best

omit [Ord A] in
theorem getElem?_takeShorterAt_of_ne (other best : Distances S R) {label state : S}
    (different : label ≠ state) : (takeShorterAt other best label)[state]? = best[state]? := by
  unfold takeShorterAt
  split
  · rw [TreeMap.getElem?_insert, if_neg fun same => different (Std.compare_eq_iff_eq.mp same)]
  · rfl

omit [Ord A] in
theorem getElem?_foldl_takeShorterAt_of_notMem (other : Distances S R) {labels : List S}
    {state : S} (absent : state ∉ labels) (best : Distances S R) :
    (labels.foldl (takeShorterAt other) best)[state]? = best[state]? := by
  induction labels generalizing best with
  | nil => rfl
  | cons label labels ih =>
      have different : label ≠ state := fun same => absent (same ▸ List.mem_cons_self)
      rw [List.foldl_cons, ih fun later => absent (List.mem_cons_of_mem label later),
        getElem?_takeShorterAt_of_ne other best different]

theorem WellFormed.getElem?_takeShorter_of_unknown {model : Model S A R}
    (wellFormed : model.WellFormed) (best other : Distances S R) {state : S}
    (unknown : ¬model.contains state = true) :
    (model.takeShorter best other)[state]? = best[state]? :=
  getElem?_foldl_takeShorterAt_of_notMem other
    (fun member => unknown ((wellFormed.mem_states_iff state).mp member)) best

theorem WellFormed.getElem?_takeShorter {model : Model S A R} (wellFormed : model.WellFormed)
    (best other : Distances S R) {state : S} (known : model.contains state = true) :
    (model.takeShorter best other)[state]? =
      if shorter (recorded other state) (recorded best state) then some (recorded other state)
      else best[state]? := by
  have atState (best : Distances S R) : (takeShorterAt other best state)[state]? =
      if shorter (recorded other state) (recorded best state) then some (recorded other state)
      else best[state]? := by
    unfold takeShorterAt
    split
    · exact TreeMap.getElem?_insert_self
    · rfl
  have merged (labels : List S) (distinct : labels.Nodup) (member : state ∈ labels)
      (best : Distances S R) : (labels.foldl (takeShorterAt other) best)[state]? =
        if shorter (recorded other state) (recorded best state) then some (recorded other state)
        else best[state]? := by
    induction labels generalizing best with
    | nil => cases member
    | cons label labels ih =>
        obtain ⟨isNew, distinctRest⟩ := List.nodup_cons.mp distinct
        rw [List.foldl_cons]
        rcases List.mem_cons.mp member with isLabel | later
        · rw [← isLabel, getElem?_foldl_takeShorterAt_of_notMem other (isLabel ▸ isNew), atState]
        · have different : label ≠ state := fun same => isNew (same ▸ later)
          have unchanged := getElem?_takeShorterAt_of_ne other best different
          rw [ih distinctRest later, unchanged, recorded_congr unchanged]
  exact merged model.states.toList wellFormed.nodup_states
    ((wellFormed.mem_states_iff state).mpr known) best

theorem WellFormed.recorded_takeShorter {model : Model S A R} (wellFormed : model.WellFormed)
    (best other : Distances S R) {state : S} (known : model.contains state = true) :
    recorded (model.takeShorter best other) state =
      lesser (recorded other state) (recorded best state) := by
  rw [recorded, wellFormed.getElem?_takeShorter best other known, lesser]
  split <;> rfl

omit [LawfulEqOrd S] in
theorem WellFormed.getElem?_infinitelyFar {model : Model S A R} (wellFormed : model.WellFormed)
    (state : S) : (model.infinitelyFar : Distances S R)[state]? =
      if model.contains state then some Number.infinity? else none := by
  change (model.states.toList.foldl (record fun _ => some Number.infinity?) ∅)[state]? = _
  exact wellFormed.getElem?_foldl_record (fun _ => rfl) state

omit [LawfulEqOrd S] in
theorem WellFormed.recorded_infinitelyFar {model : Model S A R} (wellFormed : model.WellFormed)
    (state : S) : recorded model.infinitelyFar state = Number.infinity? := by
  rw [recorded, wellFormed.getElem?_infinitelyFar]
  split <;> rfl

omit [TransOrd S] [LawfulEqOrd S] [Ord A] in
/-- The pass from one target: its distances are merged with those found before. -/
def distancePass (model : Model S A R) (targets : LabelSet S) (best : Distances S R) (start : S) :
    Except (RewardCycle S) (Distances S R) :=
  match distancesFrom (model.reversedArcs targets) (model.size - 1) start with
  | some distances => .ok (model.takeShorter best distances)
  | none => .error ⟨start⟩

omit [TransOrd S] [LawfulEqOrd S] [Ord A] in
theorem distancesToTargets_eq (model : Model S A R) (targets : LabelSet S) :
    model.distancesToTargets targets =
      (targets.toList.filter model.contains).foldlM (model.distancePass targets)
        model.infinitelyFar :=
  rfl

omit [TransOrd S] [LawfulEqOrd S] [Ord A] in
theorem distancePass_eq_ok {model : Model S A R} {targets : LabelSet S} {best after : Distances S R}
    {start : S} (passed : model.distancePass targets best start = .ok after) :
    ∃ distances, distancesFrom (model.reversedArcs targets) (model.size - 1) start =
      some distances ∧ after = model.takeShorter best distances := by
  unfold distancePass at passed
  split at passed
  · rename_i distances fromStart
    cases passed
    exact ⟨distances, fromStart, rfl⟩
  · cases passed

/-- The states of the model have an entry, and nothing else has one. -/
theorem WellFormed.contains_distancesToTargets {model : Model S A R}
    (wellFormed : model.WellFormed) {targets : LabelSet S} {distances : Distances S R}
    (found : model.distancesToTargets targets = .ok distances) (state : S) :
    distances.contains state = model.contains state := by
  rw [distancesToTargets_eq] at found
  refine foldlM_induction
    (motive := fun _ best => best.contains state = model.contains state) ?_ found ?_
  · intro start _ best after before passed
    obtain ⟨other, -, rfl⟩ := distancePass_eq_ok passed
    cases known : model.contains state with
    | true =>
        rw [known, TreeMap.contains_eq_isSome_getElem?] at before
        rw [TreeMap.contains_eq_isSome_getElem?, wellFormed.getElem?_takeShorter best other known]
        split
        · rfl
        · exact before
    | false =>
        rw [known, TreeMap.contains_eq_isSome_getElem?] at before
        rw [TreeMap.contains_eq_isSome_getElem?,
          wellFormed.getElem?_takeShorter_of_unknown best other (by simp [known]), before]
  · rw [TreeMap.contains_eq_isSome_getElem?, wellFormed.getElem?_infinitelyFar]
    cases model.contains state <;> rfl

section Targets

variable [LawfulNumber R]

theorem WellFormed.recorded_target {model : Model S A R} (wellFormed : model.WellFormed)
    {targets : LabelSet S} {distances : Distances S R}
    (found : model.distancesToTargets targets = .ok distances) {target : S}
    (isTarget : targets.contains target = true) (known : model.contains target = true) :
    recorded distances target = some 0 := by
  have notHead : ∀ arc ∈ model.reversedArcs targets, arc.head ≠ target := by
    intro arc member
    obtain ⟨source, transition, -, noTarget, rfl⟩ :=
      (wellFormed.mem_reversedArcs_iff targets arc).mp member
    rintro rfl
    exact noTarget isTarget
  have zeroFirst : lesser (some 0) Number.infinity? = (some 0 : Option R) := by
    unfold lesser
    cases isInfinity : (Number.infinity? : Option R) with
    | none => rfl
    | some infinity =>
        exact if_pos (decide_eq_true (LawfulNumber.zero_lt_infinity infinity isInfinity))
  have zeroSecond : lesser Number.infinity? (some 0) = (some 0 : Option R) := by
    unfold lesser
    cases isInfinity : (Number.infinity? : Option R) with
    | none => rfl
    | some infinity =>
        refine if_neg fun isShorter => ?_
        exact LawfulNumber.not_infinity_lt_zero infinity isInfinity (of_decide_eq_true isShorter)
  have same (distance : Option R) : lesser distance distance = distance := ite_self _
  -- Before its own pass the target is infinitely far away; every later pass keeps the zero.
  have steps (start : S) (starts : List S) (best after : Distances S R)
      (before : recorded best target = some 0 ∨
        recorded best target = Number.infinity? ∧ target ∈ start :: starts)
      (passed : model.distancePass targets best start = .ok after) :
      recorded after target = some 0 ∨
        recorded after target = Number.infinity? ∧ target ∈ starts := by
    obtain ⟨distances, fromStart, rfl⟩ := distancePass_eq_ok passed
    obtain ⟨zeroAtStart, infiniteElsewhere⟩ :=
      recorded_distancesFrom_of_notHead fromStart notHead
    rw [wellFormed.recorded_takeShorter _ _ known]
    by_cases isStart : start = target
    · left
      rcases before with isZero | ⟨isInfinite, -⟩
      · rw [zeroAtStart isStart, isZero, same]
      · rw [zeroAtStart isStart, isInfinite, zeroFirst]
    · rcases before with isZero | ⟨isInfinite, member⟩
      · left
        rw [infiniteElsewhere isStart, isZero, zeroSecond]
      · right
        rw [infiniteElsewhere isStart, isInfinite, same]
        exact ⟨rfl, (List.mem_cons.mp member).resolve_left fun equal => isStart equal.symm⟩
  rw [distancesToTargets_eq] at found
  have listed : target ∈ targets.toList.filter model.contains :=
    List.mem_filter.mpr ⟨Std.TreeSet.mem_toList.mpr isTarget, known⟩
  have atEnd := foldlM_induction (motive := fun starts best => recorded best target = some 0 ∨
    recorded best target = Number.infinity? ∧ target ∈ starts) steps found
    (Or.inr ⟨wellFormed.recorded_infinitelyFar target, listed⟩)
  rcases atEnd with isZero | ⟨-, impossible⟩
  · exact isZero
  · cases impossible

end Targets

section Exact

/-- Distances that do not increase against the weights of the transitions on the way to a state
at a finite distance. -/
def Potential (model : Model S A Rat) (targets : LabelSet S) (distances : Distances S Rat) :
    Prop :=
  ∀ source transition, transition ∈ model.outgoing source → ¬targets.contains source = true →
    ∀ distance, recorded distances transition.target = some distance →
      ∃ own, recorded distances source = some own ∧ own ≤ distance - transition.weight

omit [Ord S] [TransOrd S] [LawfulEqOrd S] [Ord A] in
theorem lesser_eq_some {first second : Option Rat} {distance : Rat}
    (isLesser : lesser first second = some distance) :
    first = some distance ∨ second = some distance := by
  unfold lesser at isLesser
  split at isLesser
  · exact Or.inl isLesser
  · exact Or.inr isLesser

omit [Ord S] [TransOrd S] [LawfulEqOrd S] [Ord A] in
private theorem exists_lesser_le (first second : Option Rat) {distance : Rat}
    (isOne : first = some distance ∨ second = some distance) :
    ∃ least, lesser first second = some least ∧ least ≤ distance := by
  unfold lesser shorter
  rcases isOne with rfl | rfl
  · cases second with
    | none => exact ⟨distance, rfl, le_refl _⟩
    | some other =>
        by_cases isLess : distance < other
        · exact ⟨distance, by simp [isLess], le_refl _⟩
        · exact ⟨other, by simp [isLess], le_of_not_gt isLess⟩
  · cases first with
    | none => exact ⟨distance, rfl, le_refl _⟩
    | some other =>
        by_cases isLess : other < distance
        · exact ⟨other, by simp [isLess], isLess.le⟩
        · exact ⟨distance, by simp [isLess], le_refl _⟩

theorem Potential.takeShorter {model : Model S A Rat} (wellFormed : model.WellFormed)
    {targets : LabelSet S} {best other : Distances S Rat}
    (bestPotential : model.Potential targets best)
    (otherPotential : model.Potential targets other) :
    model.Potential targets (model.takeShorter best other) := by
  intro source transition leaves noTarget distance found
  rw [wellFormed.recorded_takeShorter _ _ (wellFormed.closed source transition leaves)] at found
  rw [wellFormed.recorded_takeShorter _ _ (contains_of_mem_outgoing leaves)]
  rcases lesser_eq_some found with fromOther | fromBest
  · obtain ⟨own, ownFound, ownLe⟩ :=
      otherPotential source transition leaves noTarget distance fromOther
    obtain ⟨least, leastEq, leastLe⟩ := exists_lesser_le _ (recorded best source)
      (Or.inl ownFound)
    exact ⟨least, leastEq, leastLe.trans ownLe⟩
  · obtain ⟨own, ownFound, ownLe⟩ :=
      bestPotential source transition leaves noTarget distance fromBest
    obtain ⟨least, leastEq, leastLe⟩ := exists_lesser_le (recorded other source) _
      (Or.inr ownFound)
    exact ⟨least, leastEq, leastLe.trans ownLe⟩

/-- The distances to the targets are a potential. -/
theorem WellFormed.potential_distancesToTargets {model : Model S A Rat}
    (wellFormed : model.WellFormed) {targets : LabelSet S} {distances : Distances S Rat}
    (found : model.distancesToTargets targets = .ok distances) :
    model.Potential targets distances := by
  have single {start : S} {distances : Distances S Rat}
      (fromStart : distancesFrom (model.reversedArcs targets) (model.size - 1) start =
        some distances) : model.Potential targets distances := by
    intro source transition leaves noTarget distance isDistance
    have settled := shortens_of_distancesFrom fromStart _
      ((wellFormed.mem_reversedArcs_iff targets _).mpr ⟨source, transition, leaves, noTarget, rfl⟩)
    rw [Arc.shortens, Arc.detour, isDistance, Option.map_some] at settled
    cases own : recorded distances source with
    | none =>
        rw [own] at settled
        cases settled
    | some distanceHere =>
        rw [own] at settled
        have notLess := of_decide_eq_false settled
        refine ⟨distanceHere, rfl, ?_⟩
        unfold transitionLength at notLess
        linarith
  rw [distancesToTargets_eq] at found
  refine foldlM_induction (motive := fun _ best => model.Potential targets best) ?_ found ?_
  · intro start _ best after before passed
    obtain ⟨distances, fromStart, rfl⟩ := distancePass_eq_ok passed
    exact before.takeShorter wellFormed (single fromStart)
  · intro source transition _ _ distance isDistance
    rw [wellFormed.recorded_infinitelyFar] at isDistance
    cases isDistance

end Exact

end Model

end MarkovDecision
