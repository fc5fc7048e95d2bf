import MarkovDecision.Proofs.Unfolding.PruningModes

/-!
# No dead ends

With the distances as the pruning rule, a pair is dropped as soon as it cannot come to a target
within the budget.  What is kept always can: on a shortest route to a target the value less the
distance never falls, so each pair of the route is kept and expanded until the target is there.
The first pair alone is in the unfolded model without being kept.  So the search from the targets
finds everything in the unfolded model but `bottom` and a first pair whose budget is hopeless.
-/

namespace MarkovDecision

open Std (TransOrd LawfulEqOrd TreeSet)

namespace Unfolding

variable {S A : Type} [Ord S] [TransOrd S] [LawfulEqOrd S] [Ord A] [TransOrd A]
  {model : Model S A Rat} {targets : LabelSet S} {keep : S → Rat → Bool} {source : S}
  {initialValue : Rat} {state : S} {value : Rat}

omit [TransOrd S] [TransOrd A] in
theorem exists_transition_of_leads {action : A} {next : S} {nextValue : Rat}
    (isLeading : leads model keep state value action next nextValue = true) :
    ∃ transition ∈ model.outgoing state, transition.target = next ∧
      value + transition.weight = nextValue ∧ keep next nextValue = true := by
  rw [leads, Option.any_eq_true] at isLeading
  obtain ⟨weight, found, passes⟩ := isLeading
  rw [Model.weight?_some, Option.map_eq_some_iff] at found
  obtain ⟨transition, transitionFound, rfl⟩ := found
  obtain ⟨leaves, -, sameTarget⟩ := Model.transition?_eq_some transitionFound
  rw [Bool.and_eq_true, Ordering.isEq_iff_eq_eq] at passes
  obtain ⟨kept, sameValue⟩ := passes
  have valueEq := Std.LawfulEqCmp.eq_of_compare sameValue
  exact ⟨transition, leaves, LawfulEqOrd.eq_of_compare sameTarget, valueEq, valueEq ▸ kept⟩

section Edges

variable {unfolding : Unfolding S A Rat}
  (product : IsProduct model targets keep source initialValue unfolding)
include product

theorem IsProduct.eq_bottom_of_mem_successors {next : UnfoldedState S Rat}
    (isNext : next ∈ unfolding.model.successors .bottom) : next = .bottom := by
  obtain ⟨action, isSome⟩ :=
    (product.wellFormed.mem_successors_iff_probability? _ _).mp isNext
  obtain ⟨probability, found⟩ := Option.isSome_iff_exists.mp isSome
  exact ((product.bottomEntry action next probability).mp found).2.2

variable (wellFormed : model.WellFormed)
  (isKept : KeptPair model targets keep source initialValue state value)
  (noTarget : ¬targets.contains state = true)
include wellFormed isKept noTarget

theorem IsProduct.pair_mem_successors {transition : Transition S A Rat}
    (leaves : transition ∈ model.outgoing state)
    (kept : keep transition.target (value + transition.weight) = true) :
    .pair transition.target (value + transition.weight) ∈
      unfolding.model.successors (.pair state value) := by
  rw [product.wellFormed.mem_successors_iff_probability?]
  refine ⟨.take transition.action, ?_⟩
  rw [product.stepEntry isKept noTarget,
    if_pos (leads_of_mem_outgoing wellFormed leaves Std.ReflCmp.compare_self kept),
    wellFormed.probability?_actions, Model.probability?,
    wellFormed.transition?_of_mem leaves ⟨Std.ReflCmp.compare_self, Std.ReflCmp.compare_self⟩]
  rfl

omit wellFormed in
theorem IsProduct.eq_bottom_or_step {next : UnfoldedState S Rat}
    (isNext : next ∈ unfolding.model.successors (.pair state value)) :
    next = .bottom ∨ ∃ transition ∈ model.outgoing state,
      next = .pair transition.target (value + transition.weight) ∧
        keep transition.target (value + transition.weight) = true := by
  cases next with
  | bottom => exact Or.inl rfl
  | pair nextState nextValue =>
      right
      obtain ⟨action, isSome⟩ :=
        (product.wellFormed.mem_successors_iff_probability? _ _).mp isNext
      have offered : (unfolding.model.actions (.pair state value)).contains action = true := by
        rw [ActionTable.probability?] at isSome
        rw [Std.TreeMap.contains_eq_isSome_getElem?]
        exact Option.isSome_of_isSome_bind isSome
      obtain ⟨original, rfl, -⟩ := (product.stepActions isKept noTarget action).mp offered
      rw [product.stepEntry isKept noTarget] at isSome
      split at isSome
      · rename_i isLeading
        obtain ⟨transition, leaves, rfl, rfl, kept⟩ := exists_transition_of_leads isLeading
        exact ⟨transition, leaves, rfl, kept⟩
      · cases isSome

end Edges

/-- A walk along the edges of the unfolded model leads from a node to one of its targets. -/
def ComesToTarget (unfolding : Unfolding S A Rat) (label : UnfoldedState S Rat) : Prop :=
  ∃ goal, unfolding.targets.contains goal = true ∧ Walk unfolding.model.successors label goal

section Distances

variable {unfolding : Unfolding S A Rat} {distances : Distances S Rat} {bound : Rat}
  (wellFormed : model.WellFormed)
  (measured : model.distancesToTargets targets = .ok distances)
  (product :
    IsProduct model targets (keeps (some distances) bound) source initialValue unfolding)
include product

/-- What is out of budget stays there. -/
theorem IsProduct.not_comesToTarget_bottom : ¬unfolding.ComesToTarget .bottom := by
  rintro ⟨goal, isGoal, walk⟩
  have isBottom : goal = .bottom := by
    clear isGoal
    induction walk with
    | refl => rfl
    | tail _ isNext ih => exact product.eq_bottom_of_mem_successors (ih ▸ isNext)
  obtain ⟨state, value, isPair, -⟩ := (product.targets_iff goal).mp isGoal
  rw [isBottom] at isPair
  cases isPair

omit [TransOrd A] in
theorem IsProduct.unreachable_iff (label : UnfoldedState S Rat) :
    (unfolding.model.classify unfolding.targets)[label]? = some .unreachable ↔
      unfolding.model.contains label = true ∧ ¬unfolding.ComesToTarget label := by
  have comesIff : (unfolding.model.comingTo unfolding.targets).contains label = true ↔
      unfolding.ComesToTarget label := by
    rw [← TreeSet.mem_iff_contains, product.wellFormed.mem_comingTo_iff]
    constructor
    · rintro ⟨goal, isGoal, -, walk⟩
      exact ⟨goal, isGoal, walk⟩
    · rintro ⟨goal, isGoal, walk⟩
      obtain ⟨state, value, rfl, isKept, -⟩ := (product.targets_iff goal).mp isGoal
      exact ⟨_, isGoal, product.contains_of_keptPair isKept, walk⟩
  have targetComes (isTarget : unfolding.targets.contains label = true) :
      unfolding.ComesToTarget label :=
    ⟨label, isTarget, Relation.ReflTransGen.refl⟩
  rw [product.wellFormed.getElem?_classify, Option.ite_none_right_eq_some, Option.some.injEq,
    Model.classification_eq_unreachable_iff, comesIff]
  tauto

variable (isKept :
  KeptPair model targets (keeps (some distances) bound) source initialValue state value)
include wellFormed measured isKept

/-- A pair comes to a target along every route that its value can afford. -/
theorem IsProduct.comesToTarget_of_route {target : S} {route : List (Arc S Rat)}
    (isTarget : targets.contains target = true) (known : model.contains target = true)
    (isRoute : IsRoute (model.reversedArcs targets) target route state)
    (within : bound ≤ value - routeLength route) :
    unfolding.ComesToTarget (.pair state value) := by
  -- The last arc of the route is the first transition of the walk.
  induction route using List.reverseRecOn generalizing state value with
  | nil =>
      rw [isRoute_nil] at isRoute
      exact ⟨.pair state value, (product.contains_targets_iff isKept).mpr (isRoute ▸ isTarget),
        Relation.ReflTransGen.refl⟩
  | append_singleton earlier arc ih =>
      rw [isRoute_append] at isRoute
      obtain ⟨middle, toMiddle, member, tailEq, headEq⟩ := isRoute
      obtain ⟨origin, transition, leaves, noTarget, rfl⟩ :=
        (wellFormed.mem_reversedArcs_iff targets arc).mp member
      rw [isRoute_nil] at headEq
      dsimp only at tailEq headEq
      subst tailEq headEq
      have nextWithin : bound ≤ value + transition.weight - routeLength earlier := by
        rw [routeLength_append, routeLength_cons, routeLength_nil, transitionLength] at within
        linarith
      obtain ⟨own, ownFound, ownLe⟩ := wellFormed.exists_distance_le measured
        ⟨target, earlier, isTarget, known, toMiddle, rfl⟩
      have nextKeeps : keeps (some distances) bound transition.target
          (value + transition.weight) = true := by
        rw [keeps_some_iff]
        exact ⟨own, ownFound, by linarith⟩
      obtain ⟨goal, isGoal, walk⟩ :=
        ih (KeptPair.step isKept noTarget leaves nextKeeps) toMiddle nextWithin
      exact ⟨goal, isGoal,
        walk.head (product.pair_mem_successors wellFormed isKept noTarget leaves nextKeeps)⟩

/-- A pair that the rule keeps comes to a target: it can afford a shortest route. -/
theorem IsProduct.comesToTarget_of_keeps (kept : keeps (some distances) bound state value = true) :
    unfolding.ComesToTarget (.pair state value) := by
  obtain ⟨distance, found, within⟩ := keeps_some_iff.mp kept
  have known := wellFormed.contains_of_distance measured found
  obtain ⟨target, route, isTarget, targetKnown, isRoute, rfl⟩ :=
    wellFormed.hasRoute_distance measured known found
  exact product.comesToTarget_of_route wellFormed measured isKept isTarget targetKnown isRoute
    within

/-- A pair outside the targets comes to one of them only if the rule keeps it. -/
theorem IsProduct.keeps_of_comesToTarget (noTarget : ¬targets.contains state = true)
    (comes : unfolding.ComesToTarget (.pair state value)) :
    keeps (some distances) bound state value = true := by
  obtain ⟨goal, isGoal, walk⟩ := comes
  rcases Relation.ReflTransGen.cases_head walk with atGoal | ⟨next, isNext, onward⟩
  · rw [← atGoal] at isGoal
    exact (noTarget ((product.contains_targets_iff isKept).mp isGoal)).elim
  · rcases product.eq_bottom_or_step isKept noTarget isNext with
      rfl | ⟨transition, leaves, -, nextKept⟩
    · exact (product.not_comesToTarget_bottom ⟨goal, isGoal, onward⟩).elim
    · exact keeps_of_step wellFormed measured leaves noTarget nextKept

theorem IsProduct.comesToTarget_of_ne_initial
    (isOther : UnfoldedState.pair state value ≠ unfolding.initial) :
    unfolding.ComesToTarget (.pair state value) := by
  rw [product.initial_eq] at isOther
  exact product.comesToTarget_of_keeps wellFormed measured isKept
    ((isKept.start_or_keeps (respectsKeys_keeps _ bound)).resolve_left isOther)

omit isKept

/-- The first pair of a source outside the targets comes to one of them if and only if its value
less the distance of the source is at or above the bound. -/
theorem IsProduct.comesToTarget_initial_iff (noTarget : ¬targets.contains source = true) :
    unfolding.ComesToTarget unfolding.initial ↔
      ∃ distance, recorded distances source = some distance ∧ bound ≤ initialValue - distance := by
  have keepsInitial : keeps (some distances) bound source initialValue = true ↔
      ∃ distance, recorded distances source = some distance ∧ bound ≤ initialValue - distance := by
    exact keeps_some_iff
  rw [product.initial_eq, ← keepsInitial]
  exact ⟨product.keeps_of_comesToTarget wellFormed measured KeptPair.start noTarget,
    product.comesToTarget_of_keeps wellFormed measured KeptPair.start⟩

/-- Nothing is classified as unreachable but `bottom` and a hopeless first pair. -/
theorem IsProduct.unreachable_iff_hopeless (label : UnfoldedState S Rat) :
    (unfolding.model.classify unfolding.targets)[label]? = some .unreachable ↔
      label = .bottom ∨ label = unfolding.initial ∧ ¬targets.contains source = true ∧
        ¬∃ distance, recorded distances source = some distance ∧
          bound ≤ initialValue - distance := by
  have initialIff := product.comesToTarget_initial_iff wellFormed measured
  rw [product.unreachable_iff]
  constructor
  · rintro ⟨known, notComing⟩
    rcases (product.contains_iff label).mp known with rfl | ⟨state, value, rfl, isKept⟩
    · exact Or.inl rfl
    · right
      have isInitial : UnfoldedState.pair state value = unfolding.initial := by
        by_contra isOther
        exact notComing
          (product.comesToTarget_of_ne_initial wellFormed measured isKept isOther)
      have noTarget : ¬targets.contains source = true := by
        intro isTarget
        rw [isInitial, product.initial_eq] at notComing
        exact notComing ⟨_, (product.contains_targets_iff KeptPair.start).mpr isTarget,
          Relation.ReflTransGen.refl⟩
      exact ⟨isInitial, noTarget, mt (initialIff noTarget).mpr (isInitial ▸ notComing)⟩
  · rintro (rfl | ⟨rfl, noTarget, hopeless⟩)
    · exact ⟨(product.contains_iff _).mpr (Or.inl rfl), product.not_comesToTarget_bottom⟩
    · refine ⟨?_, mt (initialIff noTarget).mp hopeless⟩
      rw [product.initial_eq]
      exact product.contains_of_keptPair KeptPair.start

end Distances

/-- With the distances as the pruning rule, every pair but the first one comes to a target, and
the first pair of a source outside the targets does if and only if its value less the distance of
the source is at or above the bound; the source is infinitely far away if and only if no walk from
it comes to a target.  So nothing is classified as unreachable but `bottom` and a hopeless first
pair. -/
theorem comesToTarget_of_shortestPath (wellFormed : model.WellFormed) {bound : Rat}
    {maxStates : Nat} {unfolding : Unfolding S A Rat}
    (built : build model source targets bound ⟨.shortestPath, maxStates, initialValue⟩ =
      .ok unfolding) :
    ∃ distances, model.distancesToTargets targets = .ok distances ∧
      (recorded distances source = none ↔ ¬∃ target ∈ targets, model.contains target = true ∧
        Walk model.successors source target) ∧
      (∀ state value, unfolding.model.contains (.pair state value) = true →
        UnfoldedState.pair state value ≠ unfolding.initial →
          unfolding.ComesToTarget (.pair state value)) ∧
      (¬targets.contains source = true →
        (unfolding.ComesToTarget unfolding.initial ↔
          ∃ distance, recorded distances source = some distance ∧
            bound ≤ initialValue - distance)) ∧
      ∀ label, (unfolding.model.classify unfolding.targets)[label]? = some .unreachable ↔
        label = .bottom ∨
          label = unfolding.initial ∧ ¬targets.contains source = true ∧
            ¬∃ distance, recorded distances source = some distance ∧
              bound ≤ initialValue - distance := by
  obtain ⟨distances, measured, product⟩ := isProduct_of_shortestPath wellFormed built
  refine ⟨distances, measured, ?_, ?_, product.comesToTarget_initial_iff wellFormed measured,
    product.unreachable_iff_hopeless wellFormed measured⟩
  · rw [← wellFormed.exists_distance_iff measured source, not_exists,
      Option.eq_none_iff_forall_ne_some]
  · intro state value known isOther
    rcases (product.contains_iff _).mp known with isBottom | ⟨_, _, isPair, isKept⟩
    · cases isBottom
    · cases isPair
      exact product.comesToTarget_of_ne_initial wellFormed measured isKept isOther

/-- With three to lose, the unfolding of `tryAgain` comes to the target from its first pair and
from the one after the first failure, and nothing but `bottom` is unreachable.  With half of one
to lose, the first pair is hopeless. -/
theorem comesToTarget_of_shortestPath_tryAgain :
    ∃ unfolding hopeless,
      build tryAgain 0 {1} (-3) ⟨.shortestPath, 100, 0⟩ = .ok unfolding ∧
      build tryAgain 0 {1} (-1 / 2) ⟨.shortestPath, 100, 0⟩ = .ok hopeless ∧
      unfolding.ComesToTarget unfolding.initial ∧ unfolding.ComesToTarget (.pair 0 (-2)) ∧
      (∀ label : UnfoldedState Nat Rat,
        (unfolding.model.classify unfolding.targets)[label]? = some .unreachable ↔
          label = .bottom) ∧
      ¬hopeless.ComesToTarget hopeless.initial := by
  obtain ⟨unfolding, built⟩ := exists_eq_ok
    (show (build tryAgain 0 {1} (-3) ⟨.shortestPath, 100, 0⟩).isOk = true by decide +kernel)
  obtain ⟨hopeless, hopelessBuilt⟩ := exists_eq_ok
    (show (build tryAgain 0 {1} (-1 / 2) ⟨.shortestPath, 100, 0⟩).isOk = true by decide +kernel)
  have known : ∀ unfolding ∈ (build tryAgain 0 {1} (-3) ⟨.shortestPath, 100, 0⟩).toOption,
      unfolding.model.contains (.pair 0 (-2)) = true := by decide +kernel
  have oneAway : ∀ distances ∈ (tryAgain.distancesToTargets {1}).toOption,
      recorded distances 0 = some 1 := by decide +kernel
  have noTarget : ¬({1} : LabelSet Nat).contains 0 = true := by decide
  obtain ⟨distances, measured, -, others, initial, unreachable⟩ :=
    comesToTarget_of_shortestPath wellFormed_tryAgain built
  obtain ⟨sameDistances, sameMeasured, -, -, hopelessInitial, -⟩ :=
    comesToTarget_of_shortestPath wellFormed_tryAgain hopelessBuilt
  have distance := oneAway distances (mem_toOption_of_eq_ok measured)
  have sameDistance := oneAway sameDistances (mem_toOption_of_eq_ok sameMeasured)
  obtain ⟨_, -, product⟩ := isProduct_of_shortestPath wellFormed_tryAgain built
  have isOther : UnfoldedState.pair 0 (-2) ≠ unfolding.initial := by
    rw [product.initial_eq]
    simp
  have affordable : ∃ distance, recorded distances 0 = some distance ∧ (-3 : Rat) ≤ 0 - distance :=
    ⟨1, distance, by norm_num⟩
  refine ⟨unfolding, hopeless, built, hopelessBuilt, (initial noTarget).mpr affordable,
    others 0 (-2) (known unfolding (mem_toOption_of_eq_ok built)) isOther, fun label => ?_, ?_⟩
  · rw [unreachable, or_iff_left fun isHopeless => isHopeless.2.2 affordable]
  · rw [hopelessInitial noTarget, sameDistance]
    rintro ⟨_, ⟨⟩, tooMuch⟩
    norm_num at tooMuch

end Unfolding

end MarkovDecision
