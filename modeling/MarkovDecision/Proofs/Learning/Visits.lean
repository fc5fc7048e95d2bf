import MarkovDecision.Learning.QLearning
import MarkovDecision.Proofs.Learning.Sweeps
import MarkovDecision.Proofs.Random.Draw

/-!
# What a learner goes through

The visits of an episode are genuine: their actions are those of the states, their next states can
be drawn, and their rewards are the weights of the transitions.  What a learner remembers after an
episode is what it makes of these visits, one after the other.  So what each genuine visit
preserves holds of the result, whatever is drawn and however long the episodes are.

All the time the table of action values has the states of the model as its keys, and in each row
the actions of the state.
-/

namespace MarkovDecision

open Std (TreeMap TransOrd LawfulEqOrd)

variable {S A R G : Type} [Ord S] [Ord A] [Number R] [RandomSource G]

omit [RandomSource G]

/-- A visit that can come up in the environment. -/
structure Environment.Genuine (environment : Environment S A R) (visit : Visit S A R) : Prop where
  drawn : ∃ distribution, (environment.model.actions visit.state)[visit.action]? =
    some distribution ∧ Drawable distribution visit.next
  reward_eq : visit.reward =
    (environment.model.weight? visit.state visit.action (some visit.next)).getD 0

/-- The table of action values has a row for every state of the model, with a value for each of its
actions and no other. -/
structure Covers (model : Model S A R) (values : ActionValues S A R) : Prop where
  contains_iff : ∀ state, values.contains state = true ↔ model.contains state = true
  row_iff : ∀ {state row}, values[state]? = some row → ∀ action,
    row.contains action = true ↔ (model.actions state).contains action = true

namespace Environment

variable [RandomSource G] {environment : Environment S A R}

theorem genuine_of_sampleStep {state : S} {action : A} {source rest : G} {step : Step S R}
    (sampled : environment.sampleStep state action source = (.ok (some step), rest)) :
    environment.Genuine ⟨state, action, step.reward, step.next⟩ := by
  unfold sampleStep at sampled
  split at sampled
  · cases sampled
  · rename_i distribution offered
    split at sampled
    · cases sampled
    · rename_i next rest drawn
      cases sampled
      exact ⟨⟨distribution, offered, drawable_of_drawState drawn⟩, rfl⟩

omit [RandomSource G] in
theorem Genuine.contains_action [TransOrd A] {visit : Visit S A R}
    (genuine : environment.Genuine visit) :
    (environment.model.actions visit.state).contains visit.action = true := by
  obtain ⟨⟨distribution, offered, -⟩, -⟩ := genuine
  rw [TreeMap.contains_eq_isSome_getElem?, offered]
  rfl

omit [RandomSource G] in
theorem Genuine.contains_next [TransOrd S] [TransOrd A]
    (wellFormed : environment.model.WellFormed) {visit : Visit S A R}
    (genuine : environment.Genuine visit) : environment.model.contains visit.next = true := by
  obtain ⟨⟨distribution, offered, drawable⟩, -⟩ := genuine
  obtain ⟨transition, found⟩ := wellFormed.exists_transition?_eq offered drawable.contains
  obtain ⟨leaves, -, sameTarget⟩ := Model.transition?_eq_some found
  rw [← environment.model.contains_congr sameTarget]
  exact wellFormed.closed visit.state transition leaves

/-- An episode adds genuine visits, and its memory is what is learned from them. -/
theorem exists_visits_of_walk {exploration : R} {learn : Memory S A R → Visit S A R → Memory S A R}
    {steps : Nat} {state : S} {visits : List (Visit S A R)} {memory final : Memory S A R}
    {source rest : G} {episode : Episode S A R}
    (walked : environment.walk exploration learn steps state visits memory source =
      (.ok (episode, final), rest)) :
    ∃ added, episode.visits = visits.reverse ++ added ∧ final = added.foldl learn memory ∧
      ∀ visit ∈ added, environment.Genuine visit := by
  induction steps generalizing state visits memory source with
  | zero =>
      cases walked
      exact ⟨[], by simp, rfl, by simp⟩
  | succ steps ih =>
      unfold walk at walked
      split at walked
      · cases walked
        exact ⟨[], by simp, rfl, by simp⟩
      · split at walked
        · cases walked
        · cases walked
          exact ⟨[], by simp, rfl, by simp⟩
        · rename_i action _ _ step source sampled
          have isGenuine := genuine_of_sampleStep sampled
          dsimp only at walked
          split at walked
          · cases walked
            exact ⟨[_], by simp, rfl, by simpa using isGenuine⟩
          · obtain ⟨added, visitsEq, rfl, genuine⟩ := ih walked
            refine ⟨_ :: added, ?_, rfl, List.forall_mem_cons.mpr ⟨isGenuine, genuine⟩⟩
            rw [visitsEq, List.reverse_cons, List.append_assoc, List.singleton_append]

end Environment

section Tables

variable [TransOrd S] {model : Model S A R} {memory : Memory S A R}

theorem Memory.getElem?_update (memory : Memory S A R) (state : S) (action : A) (change : R → R)
    (other : S) :
    (memory.update state action change).values[other]? =
      if compare state other = .eq then
        memory.values[state]?.map (·.alter action fun value? => some (change (value?.getD 0)))
      else memory.values[other]? := by
  cases found : memory.values[state]? with
  | none =>
      simp only [update, found, Option.map_none]
      split
      · rename_i same
        rw [← TreeMap.getElem?_congr same, found]
      · rfl
  | some row => simp only [update, found, TreeMap.getElem?_insert, Option.map_some]

theorem Covers.exists_row {values : ActionValues S A R} (covers : Covers model values) {state : S}
    (known : model.contains state = true) : ∃ row, values[state]? = some row := by
  rw [← covers.contains_iff, TreeMap.contains_eq_isSome_getElem?] at known
  exact Option.isSome_iff_exists.mp known

variable [TransOrd A]

omit [TransOrd S] in
theorem Covers.values_eq_nil_iff {values : ActionValues S A R} (covers : Covers model values)
    {state : S} {row : TreeMap A R} (found : values[state]? = some row) :
    row.values = [] ↔ (model.actions state).toList = [] := by
  rw [values_eq_map, List.map_eq_nil_iff, ← List.isEmpty_iff, ← List.isEmpty_iff,
    TreeMap.isEmpty_toList, TreeMap.isEmpty_toList, TreeMap.isEmpty_iff_forall_contains,
    TreeMap.isEmpty_iff_forall_contains]
  simp only [← Bool.not_eq_true, covers.row_iff found]

omit [TransOrd S] in
theorem Covers.exists_value {values : ActionValues S A R} (covers : Covers model values) {state : S}
    {row : TreeMap A R} (found : values[state]? = some row) {action : A}
    (offered : (model.actions state).contains action = true) :
    ∃ value, row[action]? = some value := by
  rw [← covers.row_iff found, TreeMap.contains_eq_isSome_getElem?] at offered
  exact Option.isSome_iff_exists.mp offered

theorem Covers.update (covers : Covers model memory.values) {state : S} {action : A}
    (offered : (model.actions state).contains action = true) (change : R → R) :
    Covers model (memory.update state action change).values where
  contains_iff other := by
    rw [← covers.contains_iff, TreeMap.contains_eq_isSome_getElem?, Memory.getElem?_update]
    split
    · rename_i same
      rw [Option.isSome_map, TreeMap.getElem?_congr same, TreeMap.contains_eq_isSome_getElem?]
    · rw [TreeMap.contains_eq_isSome_getElem?]
  row_iff := by
    intro other row isRow label
    rw [Memory.getElem?_update] at isRow
    split at isRow
    · rename_i same
      obtain ⟨before, found, rfl⟩ := Option.map_eq_some_iff.mp isRow
      rw [← model.actions_congr same, ← covers.row_iff found, TreeMap.contains_alter]
      by_cases isAltered : compare action label = .eq
      · rw [if_pos isAltered, ← TreeMap.contains_congr isAltered, covers.row_iff found]
        simp [offered]
      · rw [if_neg isAltered]
    · exact covers.row_iff isRow label

omit [TransOrd A] in
theorem getElem?_zeroValues {environment : Environment S A R}
    (wellFormed : environment.model.WellFormed) (state : S) :
    environment.zeroValues[state]? = if environment.model.contains state then
      some ((environment.model.actions state).map fun _ _ => 0) else none := by
  have respects {first second : S} (same : compare first second = .eq) :
      some ((environment.model.actions first).map fun _ _ => (0 : R)) =
        some ((environment.model.actions second).map fun _ _ => 0) := by
    rw [environment.model.actions_congr same]
  exact wellFormed.getElem?_foldl_record respects state

theorem covers_zeroValues {environment : Environment S A R}
    (wellFormed : environment.model.WellFormed) :
    Covers environment.model environment.zeroValues where
  contains_iff state := by
    rw [TreeMap.contains_eq_isSome_getElem?, getElem?_zeroValues wellFormed]
    split <;> simp_all
  row_iff := by
    intro state row isRow action
    rw [getElem?_zeroValues wellFormed] at isRow
    split at isRow
    · cases isRow
      rw [TreeMap.contains_map]
    · cases isRow

theorem eq_zero_of_zeroValues {environment : Environment S A R}
    (wellFormed : environment.model.WellFormed) {state : S} {row : TreeMap A R}
    (isRow : environment.zeroValues[state]? = some row) {action : A} {value : R}
    (isValue : row[action]? = some value) : value = 0 := by
  rw [getElem?_zeroValues wellFormed] at isRow
  split at isRow
  · cases isRow
    rw [TreeMap.getElem?_map', Option.pmap_eq_some_iff] at isValue
    obtain ⟨_, _, -, rfl⟩ := isValue
    rfl
  · cases isRow

end Tables

end MarkovDecision
