import MarkovDecision.Proofs.Relaxation

/-!
# Tours outside the targets

A tour follows transitions of states that are no targets and sums up their weights.  Backwards it
is a route of the reversed transitions, whose length is the weight with the sign changed.  Where no
tour back to its start gains anything, all tours together gain a bounded amount, because the
circuits of a tour can be left out.
-/

namespace MarkovDecision

open Std (TransOrd LawfulEqOrd)

/-- Each arc takes no more off the length of a route than all arcs together are long. -/
theorem neg_routeLength_le {S : Type} {arcs route : List (Arc S Rat)}
    (fromArcs : ∀ {arc}, arc ∈ route → arc ∈ arcs) :
    -routeLength route ≤ route.length * (arcs.map fun arc => |arc.length|).sum := by
  have each : ∀ length ∈ route.map (·.length),
      -(arcs.map fun arc => |arc.length|).sum ≤ length := by
    intro length member
    obtain ⟨arc, arcMem, rfl⟩ := List.mem_map.mp member
    have single : |arc.length| ≤ (arcs.map fun arc => |arc.length|).sum :=
      List.single_le_sum (by simp) _ (List.mem_map.mpr ⟨arc, fromArcs arcMem, rfl⟩)
    exact (abs_le.mp single).1
  have lower : route.length * -(arcs.map fun arc => |arc.length|).sum ≤ routeLength route := by
    simpa [routeLength] using List.card_nsmul_le_sum _ _ each
  linarith

namespace Model

variable {S A : Type} [Ord S] {model : Model S A Rat} {targets : LabelSet S}

/-- Transitions of states outside the targets lead from one state to another and gain a total
weight. -/
inductive Tour (model : Model S A Rat) (targets : LabelSet S) (start : S) : S → Rat → Prop
  | stay : Tour model targets start start 0
  | step {state : S} {gain : Rat} {transition : Transition S A Rat}
      (here : Tour model targets start state gain) (noTarget : ¬targets.contains state = true)
      (leaves : transition ∈ model.outgoing state) :
      Tour model targets start transition.target (gain + transition.weight)

/-- No tour that comes back to its start gains anything. -/
def NoGainingCycle (model : Model S A Rat) (targets : LabelSet S) : Prop :=
  ∀ state gain, model.Tour targets state state gain → gain ≤ 0

/-- Where the states have levels that no transition outside the targets gets ahead of, no cycle
gains. -/
theorem noGainingCycle_of_level (level : S → Rat)
    (keepsLevel : ∀ state, ¬targets.contains state = true → ∀ transition ∈ model.outgoing state,
      transition.weight ≤ level transition.target - level state) :
    model.NoGainingCycle targets := by
  intro state gain tour
  have gainLe {stop : S} {gain : Rat} (tour : model.Tour targets state stop gain) :
      gain ≤ level stop - level state := by
    induction tour with
    | stay => simp
    | @step middle gain transition _ noTarget leaves ih =>
        have ahead := keepsLevel middle noTarget transition leaves
        linarith
  simpa using gainLe tour

variable [TransOrd S] [LawfulEqOrd S] [Ord A]

theorem WellFormed.tour_iff (wellFormed : model.WellFormed) (start stop : S) (gain : Rat) :
    model.Tour targets start stop gain ↔
      ∃ route, IsRoute (model.reversedArcs targets) stop route start ∧
        routeLength route = -gain := by
  constructor
  · intro tour
    induction tour with
    | stay => exact ⟨[], rfl, by simp⟩
    | @step state gain transition _ noTarget leaves ih =>
        obtain ⟨route, isRoute, lengthEq⟩ := ih
        have member := (wellFormed.mem_reversedArcs_iff targets _).mpr
          ⟨state, transition, leaves, noTarget, rfl⟩
        refine ⟨_ :: route, ⟨member, rfl, isRoute⟩, ?_⟩
        rw [routeLength_cons, lengthEq, transitionLength]
        ring
  · rintro ⟨route, isRoute, lengthEq⟩
    induction route generalizing stop gain with
    | nil =>
        rw [isRoute_nil] at isRoute
        have noGain : gain = 0 := by simpa using lengthEq.symm
        rw [isRoute, noGain]
        exact Tour.stay
    | cons arc route ih =>
        obtain ⟨member, tailEq, onward⟩ := isRoute
        obtain ⟨state, transition, leaves, noTarget, rfl⟩ :=
          (wellFormed.mem_reversedArcs_iff targets arc).mp member
        have earlier := ih state (-routeLength route) onward (by ring)
        have gainEq : gain = -routeLength route + transition.weight := by
          rw [routeLength_cons, transitionLength] at lengthEq
          linarith
        rw [gainEq, ← tailEq]
        exact Tour.step earlier noTarget leaves

/-- Where no cycle gains, no circuit of the reversed transitions has negative length. -/
theorem NoGainingCycle.noGainFrom (noGain : model.NoGainingCycle targets)
    (wellFormed : model.WellFormed) (start : S) :
    NoGainFrom (model.reversedArcs targets) start := by
  intro _ circuit state _ around
  have loses := noGain state (-routeLength circuit)
    ((wellFormed.tour_iff state state _).mpr ⟨circuit, around, by ring⟩)
  linarith

/-- Where no cycle gains, the gains of all tours have a bound. -/
theorem NoGainingCycle.exists_gain_le (noGain : model.NoGainingCycle targets)
    (wellFormed : model.WellFormed) :
    ∃ most, ∀ start stop gain, model.Tour targets start stop gain → gain ≤ most := by
  let arcs := model.reversedArcs targets
  let longest : Rat := (arcs.map fun arc => |arc.length|).sum
  have longestNonneg : 0 ≤ longest := List.sum_nonneg (by simp)
  refine ⟨(model.states.toList.length + 1) * longest, fun start stop gain tour => ?_⟩
  obtain ⟨route, isRoute, lengthEq⟩ := (wellFormed.tour_iff start stop gain).mp tour
  have headMem : ∀ arc ∈ arcs, arc.head ∈ stop :: model.states.toList := fun arc member =>
    List.mem_cons_of_mem _ (wellFormed.head_mem_states arc member)
  obtain ⟨short, shortRoute, shortLt, shortLe⟩ :=
    isRoute.exists_short List.mem_cons_self headMem (noGain.noGainFrom wellFormed stop)
  have countLe : (short.length : Rat) ≤ model.states.toList.length + 1 := by
    exact_mod_cast shortLt.le
  calc gain = -routeLength route := by rw [lengthEq, neg_neg]
    _ ≤ -routeLength short := neg_le_neg shortLe
    _ ≤ short.length * longest := neg_routeLength_le shortRoute.mem_arcs
    _ ≤ (model.states.toList.length + 1) * longest :=
      mul_le_mul_of_nonneg_right countLe longestNonneg

end Model

end MarkovDecision
