import Mathlib.Algebra.Order.BigOperators.Group.List
import Mathlib.Algebra.Order.Field.Rat
import MarkovDecision.Proofs.Distance

/-!
# Rounds of relaxation

A route is a chain of arcs.  Every recorded distance is the length of a route, and after some
rounds no route with at most as many arcs is shorter than what is recorded.  A route with as many
arcs as there are states comes to one of them twice; the circuit in between can be left out, and
unless its length is negative the route gets no longer by that.  So without circuits of negative
length one round less than there are states is enough, and no arc can be relaxed any more.

So the finite distances to the targets are the lengths of shortest routes, and the states that have
one are those from which a walk comes to a target.  When nothing is gained outside the targets there
are distances, and none of them is negative.
-/

namespace MarkovDecision

open Std (TreeMap TreeSet TransOrd LawfulEqOrd)

section Routes

variable {S R : Type} {arcs : List (Arc S R)}

/-- The arcs of a list lead one after the other from a state to another. -/
def IsRoute (arcs : List (Arc S R)) : S → List (Arc S R) → S → Prop
  | start, [], stop => start = stop
  | start, arc :: route, stop => arc ∈ arcs ∧ arc.tail = start ∧ IsRoute arcs arc.head route stop

@[simp]
theorem isRoute_nil (start stop : S) : IsRoute arcs start [] stop ↔ start = stop :=
  Iff.rfl

@[simp]
theorem isRoute_cons (start stop : S) (arc : Arc S R) (route : List (Arc S R)) :
    IsRoute arcs start (arc :: route) stop ↔
      arc ∈ arcs ∧ arc.tail = start ∧ IsRoute arcs arc.head route stop :=
  Iff.rfl

@[simp]
theorem isRoute_append (start stop : S) (first second : List (Arc S R)) :
    IsRoute arcs start (first ++ second) stop ↔
      ∃ middle, IsRoute arcs start first middle ∧ IsRoute arcs middle second stop := by
  induction first generalizing start with
  | nil => simp
  | cons arc first ih => simp [ih, and_assoc]

theorem IsRoute.mem_arcs {start stop : S} {route : List (Arc S R)}
    (isRoute : IsRoute arcs start route stop) {arc : Arc S R} (member : arc ∈ route) :
    arc ∈ arcs := by
  induction route generalizing start with
  | nil => cases member
  | cons first route ih =>
      obtain ⟨firstMem, -, rest⟩ := isRoute
      rcases List.mem_cons.mp member with isFirst | later
      · exact isFirst ▸ firstMem
      · exact ih rest later

theorem IsRoute.exists_split {start stop : S} {route : List (Arc S R)}
    (isRoute : IsRoute arcs start route stop) {state : S}
    (visited : state ∈ route.map (·.head)) :
    ∃ first second, route = first ++ second ∧ first ≠ [] ∧ IsRoute arcs start first state ∧
      IsRoute arcs state second stop := by
  induction route generalizing start with
  | nil => simp at visited
  | cons arc route ih =>
      obtain ⟨member, tailEq, rest⟩ := isRoute
      rw [List.map_cons, List.mem_cons] at visited
      rcases visited with isHead | later
      · exact ⟨[arc], route, rfl, by simp, by simp [member, tailEq, isHead], isHead ▸ rest⟩
      · obtain ⟨first, second, rfl, -, toState, fromState⟩ := ih rest later
        exact ⟨arc :: first, second, rfl, by simp, ⟨member, tailEq, toState⟩, fromState⟩

/-- A route that comes to a state twice has a circuit. -/
theorem IsRoute.exists_circuit {start stop : S} {route : List (Arc S R)}
    (isRoute : IsRoute arcs start route stop)
    (repeats : ¬(start :: route.map (·.head)).Nodup) :
    ∃ before circuit after state, route = before ++ circuit ++ after ∧ circuit ≠ [] ∧
      IsRoute arcs start before state ∧ IsRoute arcs state circuit state ∧
      IsRoute arcs state after stop := by
  induction route generalizing start with
  | nil => simp at repeats
  | cons arc route ih =>
      by_cases returns : start ∈ (arc :: route).map (·.head)
      · obtain ⟨circuit, after, splits, nonempty, around, onward⟩ := isRoute.exists_split returns
        exact ⟨[], circuit, after, start, splits, nonempty, rfl, around, onward⟩
      · obtain ⟨member, tailEq, rest⟩ := isRoute
        have repeatsLater : ¬(arc.head :: route.map (·.head)).Nodup := fun distinct =>
          repeats (List.nodup_cons.mpr ⟨returns, distinct⟩)
        obtain ⟨before, circuit, after, state, rfl, nonempty, toState, around, onward⟩ :=
          ih rest repeatsLater
        exact ⟨arc :: before, circuit, after, state, rfl, nonempty, ⟨member, tailEq, toState⟩,
          around, onward⟩

end Routes

section Lengths

variable {S : Type} {arcs : List (Arc S Rat)}

def routeLength (route : List (Arc S Rat)) : Rat :=
  (route.map (·.length)).sum

@[simp]
theorem routeLength_nil : routeLength ([] : List (Arc S Rat)) = 0 :=
  rfl

@[simp]
theorem routeLength_cons (arc : Arc S Rat) (route : List (Arc S Rat)) :
    routeLength (arc :: route) = arc.length + routeLength route := by
  simp [routeLength]

@[simp]
theorem routeLength_append (first second : List (Arc S Rat)) :
    routeLength (first ++ second) = routeLength first + routeLength second := by
  simp [routeLength]

theorem IsRoute.length_nonneg {start stop : S} {route : List (Arc S Rat)}
    (isRoute : IsRoute arcs start route stop) (nonneg : ∀ arc ∈ arcs, 0 ≤ arc.length) :
    0 ≤ routeLength route := by
  apply List.sum_nonneg
  intro length member
  obtain ⟨arc, arcMem, rfl⟩ := List.mem_map.mp member
  exact nonneg arc (isRoute.mem_arcs arcMem)

/-- No circuit that can be come to from a state has negative length. -/
def NoGainFrom (arcs : List (Arc S Rat)) (start : S) : Prop :=
  ∀ before circuit state, IsRoute arcs start before state → IsRoute arcs state circuit state →
    0 ≤ routeLength circuit

theorem noGainFrom_of_nonneg (nonneg : ∀ arc ∈ arcs, 0 ≤ arc.length) (start : S) :
    NoGainFrom arcs start :=
  fun _ _ _ _ around => around.length_nonneg nonneg

/-- Without circuits of negative length, a route is no shorter than one that has fewer arcs than
there are states. -/
theorem IsRoute.exists_short {states : List S} {start : S} (startMem : start ∈ states)
    (headMem : ∀ arc ∈ arcs, arc.head ∈ states) (noGain : NoGainFrom arcs start) {stop : S}
    {route : List (Arc S Rat)} (isRoute : IsRoute arcs start route stop) :
    ∃ short, IsRoute arcs start short stop ∧ short.length < states.length ∧
      routeLength short ≤ routeLength route := by
  generalize countEq : route.length = count
  induction count using Nat.strong_induction_on generalizing route with
  | h count ih =>
      by_cases isShort : count < states.length
      · exact ⟨route, isRoute, countEq ▸ isShort, le_refl _⟩
      · have repeats : ¬(start :: route.map (·.head)).Nodup := by
          intro distinct
          have within : start :: route.map (·.head) ⊆ states := by
            intro state visited
            rcases List.mem_cons.mp visited with rfl | isHead
            · exact startMem
            · obtain ⟨arc, arcMem, rfl⟩ := List.mem_map.mp isHead
              exact headMem arc (isRoute.mem_arcs arcMem)
          have fits := distinct.length_le_of_subset within
          simp at fits
          omega
        obtain ⟨before, circuit, after, state, rfl, nonempty, toState, around, onward⟩ :=
          isRoute.exists_circuit repeats
        have shorter : (before ++ after).length < count := by
          have circuitPos := List.length_pos_iff.mpr nonempty
          simp at countEq ⊢
          omega
        obtain ⟨short, shortRoute, shortLt, shortLe⟩ := ih _ shorter
          ((isRoute_append _ _ _ _).mpr ⟨state, toState, onward⟩) rfl
        refine ⟨short, shortRoute, shortLt, shortLe.trans ?_⟩
        have notNegative := noGain before circuit state toState around
        simp only [routeLength_append]
        linarith

end Lengths

section Relaxing

variable {S : Type} [Ord S] {arcs : List (Arc S Rat)}

theorem recorded_eq_some_iff (distances : Distances S Rat) (state : S) (distance : Rat) :
    recorded distances state = some distance ↔ distances[state]? = some (some distance) := by
  rw [recorded]
  cases distances[state]? with
  | none => simp
  | some entry => simp

theorem getElem?_eq_some_none_iff [TransOrd S] (distances : Distances S Rat) (state : S) :
    distances[state]? = some none ↔
      distances.contains state = true ∧ recorded distances state = none := by
  rw [TreeMap.contains_eq_isSome_getElem?, recorded]
  cases distances[state]? with
  | none => simp
  | some entry => simp

theorem Arc.shortens_iff (arc : Arc S Rat) (distances : Distances S Rat) :
    arc.shortens distances = true ↔ ∃ own, recorded distances arc.tail = some own ∧
      ∀ known, recorded distances arc.head = some known → own + arc.length < known := by
  rw [Arc.shortens, Arc.detour]
  cases recorded distances arc.tail with
  | none => simp [shorter]
  | some own => cases recorded distances arc.head <;> simp [shorter]

/-- A table records at most the distances of another one. -/
def Undercuts (after before : Distances S Rat) : Prop :=
  ∀ (state : S) (distance : Rat), recorded before state = some distance →
    ∃ lower, recorded after state = some lower ∧ lower ≤ distance

theorem undercuts_refl (distances : Distances S Rat) : Undercuts distances distances :=
  fun _ distance found => ⟨distance, found, le_refl _⟩

theorem Undercuts.trans {after middle before : Distances S Rat} (first : Undercuts after middle)
    (second : Undercuts middle before) : Undercuts after before := by
  intro state distance found
  obtain ⟨between, betweenFound, betweenLe⟩ := second state distance found
  obtain ⟨lower, lowerFound, lowerLe⟩ := first state between betweenFound
  exact ⟨lower, lowerFound, lowerLe.trans betweenLe⟩

theorem relax_of_shortens {progress : Distances S Rat × Bool} {arc : Arc S Rat} {own : Rat}
    (shortens : arc.shortens progress.1 = true)
    (ownFound : recorded progress.1 arc.tail = some own) :
    relax progress arc = (progress.1.insert arc.head (some (own + arc.length)), true) := by
  rw [relax, if_pos shortens, Arc.detour, ownFound, Option.map_some]

theorem relax_of_not_shortens {progress : Distances S Rat × Bool} {arc : Arc S Rat}
    (settled : ¬arc.shortens progress.1 = true) : relax progress arc = progress := by
  rw [relax, if_neg settled]

variable [TransOrd S] [LawfulEqOrd S]

theorem undercuts_relax (progress : Distances S Rat × Bool) (arc : Arc S Rat) :
    Undercuts (relax progress arc).1 progress.1 := by
  by_cases shortens : arc.shortens progress.1 = true
  · obtain ⟨own, ownFound, isLess⟩ := (arc.shortens_iff _).mp shortens
    rw [relax_of_shortens shortens ownFound]
    intro state distance found
    by_cases isHead : arc.head = state
    · subst isHead
      exact ⟨_, recorded_insert_self _ _ _, (isLess distance found).le⟩
    · rw [recorded_insert_of_ne _ _ isHead]
      exact ⟨distance, found, le_refl _⟩
  · rw [relax_of_not_shortens shortens]
    exact undercuts_refl _

omit [LawfulEqOrd S] in
theorem relax_head (progress : Distances S Rat × Bool) {arc : Arc S Rat} {own : Rat}
    (ownFound : recorded progress.1 arc.tail = some own) :
    ∃ lower, recorded (relax progress arc).1 arc.head = some lower ∧ lower ≤ own + arc.length := by
  by_cases shortens : arc.shortens progress.1 = true
  · rw [relax_of_shortens shortens ownFound]
    exact ⟨own + arc.length, by simp, le_refl _⟩
  · rw [relax_of_not_shortens shortens]
    rw [Arc.shortens_iff] at shortens
    push Not at shortens
    obtain ⟨known, knownFound, knownLe⟩ := shortens own ownFound
    exact ⟨known, knownFound, knownLe⟩

theorem undercuts_foldl_relax (arcs : List (Arc S Rat)) (progress : Distances S Rat × Bool) :
    Undercuts (arcs.foldl relax progress).1 progress.1 := by
  induction arcs generalizing progress with
  | nil => exact undercuts_refl _
  | cons arc arcs ih => exact (ih _).trans (undercuts_relax progress arc)

/-- After a round the head of every arc is as close as the arc makes it, from where its tail was
before the round. -/
theorem foldl_relax_head {before : Distances S Rat} {progress : Distances S Rat × Bool}
    (undercuts : Undercuts progress.1 before) {arc : Arc S Rat} (member : arc ∈ arcs) {own : Rat}
    (ownFound : recorded before arc.tail = some own) :
    ∃ lower, recorded (arcs.foldl relax progress).1 arc.head = some lower ∧
      lower ≤ own + arc.length := by
  induction arcs generalizing progress with
  | nil => cases member
  | cons first arcs ih =>
      rcases List.mem_cons.mp member with isFirst | later
      · obtain ⟨between, betweenFound, betweenLe⟩ := undercuts _ own ownFound
        rw [isFirst] at betweenFound
        obtain ⟨near, nearFound, nearLe⟩ := relax_head progress betweenFound
        obtain ⟨lower, lowerFound, lowerLe⟩ := undercuts_foldl_relax arcs _ _ near nearFound
        rw [List.foldl_cons, isFirst]
        exact ⟨lower, lowerFound, by linarith⟩
      · exact ih ((undercuts_relax progress first).trans undercuts) later

omit [TransOrd S] [LawfulEqOrd S] in
/-- A round that reports no change has changed nothing, and no arc can be relaxed. -/
theorem foldl_relax_unchanged {distances : Distances S Rat}
    (unchanged : (arcs.foldl relax (distances, false)).2 = false) :
    arcs.foldl relax (distances, false) = (distances, false) ∧
      ∀ arc ∈ arcs, arc.shortens distances = false := by
  have staysChanged (arcs : List (Arc S Rat)) (distances : Distances S Rat) :
      (arcs.foldl relax (distances, true)).2 = true := by
    induction arcs generalizing distances with
    | nil => rfl
    | cons arc arcs ih =>
        rw [List.foldl_cons]
        by_cases shortens : arc.shortens distances = true
        · obtain ⟨own, ownFound, -⟩ := (arc.shortens_iff _).mp shortens
          rw [relax_of_shortens shortens ownFound]
          exact ih _
        · rw [relax_of_not_shortens shortens]
          exact ih _
  induction arcs with
  | nil => simp
  | cons arc arcs ih =>
      rw [List.foldl_cons] at unchanged ⊢
      by_cases shortens : arc.shortens distances = true
      · obtain ⟨own, ownFound, -⟩ := (arc.shortens_iff _).mp shortens
        rw [relax_of_shortens shortens ownFound, staysChanged] at unchanged
        cases unchanged
      · rw [relax_of_not_shortens shortens] at unchanged ⊢
        obtain ⟨sameProgress, settled⟩ := ih unchanged
        refine ⟨sameProgress, ?_⟩
        simpa [shortens] using settled

/-- No route with at most the given number of arcs is shorter than what is recorded. -/
def CoversRoutes (arcs : List (Arc S Rat)) (start : S) (count : Nat)
    (distances : Distances S Rat) : Prop :=
  ∀ route stop, IsRoute arcs start route stop → route.length ≤ count →
    ∃ distance, recorded distances stop = some distance ∧ distance ≤ routeLength route

theorem CoversRoutes.round {start : S} {count : Nat} {distances : Distances S Rat}
    (covers : CoversRoutes arcs start count distances) :
    CoversRoutes arcs start (count + 1) (arcs.foldl relax (distances, false)).1 := by
  intro route stop isRoute lengthLe
  rcases List.eq_nil_or_concat' route with rfl | ⟨earlier, last, rfl⟩
  · obtain ⟨distance, found, distanceLe⟩ := covers [] stop isRoute (by simp)
    obtain ⟨lower, lowerFound, lowerLe⟩ :=
      undercuts_foldl_relax arcs (distances, false) stop distance found
    exact ⟨lower, lowerFound, lowerLe.trans distanceLe⟩
  · rw [isRoute_append] at isRoute
    obtain ⟨middle, toMiddle, lastMem, tailEq, headEq⟩ := isRoute
    obtain ⟨own, ownFound, ownLe⟩ := covers earlier middle toMiddle (by simp at lengthLe; omega)
    rw [← tailEq] at ownFound
    have start : Undercuts (distances, false).1 distances := undercuts_refl distances
    obtain ⟨lower, lowerFound, lowerLe⟩ := foldl_relax_head start lastMem ownFound
    rw [isRoute_nil] at headEq
    rw [← headEq]
    refine ⟨lower, lowerFound, lowerLe.trans ?_⟩
    simp
    linarith

/-- At the end either all routes of so many arcs are covered, or a round had nothing to do. -/
theorem CoversRoutes.relaxRounds {start : S} {count : Nat} {distances : Distances S Rat}
    (covers : CoversRoutes arcs start count distances) (rounds : Nat) :
    CoversRoutes arcs start (count + rounds) (MarkovDecision.relaxRounds arcs rounds distances) ∨
      ∀ arc ∈ arcs, arc.shortens (MarkovDecision.relaxRounds arcs rounds distances) = false := by
  induction rounds generalizing count distances with
  | zero => exact Or.inl covers
  | succ rounds ih =>
      rw [MarkovDecision.relaxRounds]
      cases changed : (arcs.foldl relax (distances, false)).2 with
      | true =>
          have nextRounds := ih covers.round
          rw [Nat.add_assoc, Nat.add_comm 1] at nextRounds
          simpa [changed] using nextRounds
      | false =>
          obtain ⟨sameProgress, settled⟩ := foldl_relax_unchanged changed
          rw [sameProgress]
          exact Or.inr settled

/-- Every recorded distance is the length of a route. -/
def RecordsRoutes (arcs : List (Arc S Rat)) (start : S) (distances : Distances S Rat) : Prop :=
  ∀ (state : S) (distance : Rat), recorded distances state = some distance →
    ∃ route, IsRoute arcs start route state ∧ routeLength route = distance

theorem RecordsRoutes.relax {start : S} {progress : Distances S Rat × Bool}
    (records : RecordsRoutes arcs start progress.1) {arc : Arc S Rat} (member : arc ∈ arcs) :
    RecordsRoutes arcs start (MarkovDecision.relax progress arc).1 := by
  by_cases shortens : arc.shortens progress.1 = true
  · obtain ⟨own, ownFound, -⟩ := (arc.shortens_iff _).mp shortens
    rw [relax_of_shortens shortens ownFound]
    intro state distance found
    by_cases isHead : arc.head = state
    · subst isHead
      rw [recorded_insert_self] at found
      cases found
      obtain ⟨route, isRoute, rfl⟩ := records _ own ownFound
      refine ⟨route ++ [arc], ?_, by simp⟩
      rw [isRoute_append]
      exact ⟨arc.tail, isRoute, member, rfl, rfl⟩
    · rw [recorded_insert_of_ne _ _ isHead] at found
      exact records state distance found
  · rw [relax_of_not_shortens shortens]
    exact records

theorem RecordsRoutes.relaxRounds {start : S} {distances : Distances S Rat}
    (records : RecordsRoutes arcs start distances) (rounds : Nat) :
    RecordsRoutes arcs start (MarkovDecision.relaxRounds arcs rounds distances) := by
  have round (distances : Distances S Rat) (records : RecordsRoutes arcs start distances) :
      RecordsRoutes arcs start (arcs.foldl MarkovDecision.relax (distances, false)).1 :=
    List.foldlRecOn
      (motive := fun progress : Distances S Rat × Bool => RecordsRoutes arcs start progress.1)
      arcs _ records fun _ before _ member => before.relax member
  induction rounds generalizing distances with
  | zero => exact records
  | succ rounds ih =>
      have after := round distances records
      rw [MarkovDecision.relaxRounds]
      generalize arcs.foldl MarkovDecision.relax (distances, false) = progress at after
      dsimp only
      split
      · exact ih after
      · exact after

theorem recordsRoutes_start (arcs : List (Arc S Rat)) (start : S) :
    RecordsRoutes arcs start ((∅ : Distances S Rat).insert start (some 0)) := by
  intro state distance found
  by_cases isStart : start = state
  · subst isStart
    rw [recorded_insert_self] at found
    cases found
    exact ⟨[], rfl, rfl⟩
  · rw [recorded_insert_of_ne _ _ isStart, recorded_empty] at found
    cases found

omit [LawfulEqOrd S] in
theorem coversRoutes_start (arcs : List (Arc S Rat)) (start : S) :
    CoversRoutes arcs start 0 ((∅ : Distances S Rat).insert start (some 0)) := by
  intro route stop isRoute lengthLe
  rw [List.length_eq_zero_iff.mp (Nat.le_zero.mp lengthLe), isRoute_nil] at isRoute
  subst isRoute
  refine ⟨0, by simp, ?_⟩
  simp [List.length_eq_zero_iff.mp (Nat.le_zero.mp lengthLe)]

theorem recordsRoutes_distancesFrom {rounds : Nat} {start : S} {distances : Distances S Rat}
    (found : distancesFrom arcs rounds start = some distances) :
    RecordsRoutes arcs start distances := by
  unfold distancesFrom at found
  dsimp only at found
  split at found
  · cases found
  · cases found
    exact (recordsRoutes_start arcs start).relaxRounds rounds

/-- Without circuits of negative length, one round less than there are states is enough. -/
theorem exists_distancesFrom {states : List S} {start : S} (startMem : start ∈ states)
    (headMem : ∀ arc ∈ arcs, arc.head ∈ states) (noGain : NoGainFrom arcs start) {rounds : Nat}
    (enough : states.length ≤ rounds + 1) :
    ∃ distances, distancesFrom arcs rounds start = some distances := by
  have settled : ∀ arc ∈ arcs, arc.shortens
      (MarkovDecision.relaxRounds arcs rounds ((∅ : Distances S Rat).insert start (some 0))) =
        false := by
    rcases (coversRoutes_start arcs start).relaxRounds rounds with covers | settled
    · have records := (recordsRoutes_start arcs start).relaxRounds rounds
      intro arc member
      rw [Bool.eq_false_iff]
      intro shortens
      obtain ⟨own, ownFound, isLess⟩ := (arc.shortens_iff _).mp shortens
      obtain ⟨route, isRoute, rfl⟩ := records _ own ownFound
      -- The route by way of the arc could be cut short, and then its length is recorded.
      have onward : IsRoute arcs start (route ++ [arc]) arc.head := by
        rw [isRoute_append]
        exact ⟨arc.tail, isRoute, member, rfl, rfl⟩
      obtain ⟨short, shortRoute, shortLt, shortLe⟩ := onward.exists_short startMem headMem noGain
      obtain ⟨known, knownFound, knownLe⟩ := covers short arc.head shortRoute (by omega)
      have contradiction := isLess known knownFound
      simp at shortLe
      linarith
    · exact settled
  refine ⟨_, if_neg ?_⟩
  rw [List.any_eq_true]
  rintro ⟨arc, member, shortens⟩
  rw [settled arc member] at shortens
  cases shortens

theorem undercuts_relaxRounds (arcs : List (Arc S Rat)) (rounds : Nat)
    (distances : Distances S Rat) :
    Undercuts (MarkovDecision.relaxRounds arcs rounds distances) distances := by
  induction rounds generalizing distances with
  | zero => exact undercuts_refl distances
  | succ rounds ih =>
      have round := undercuts_foldl_relax arcs (distances, false)
      rw [MarkovDecision.relaxRounds]
      generalize arcs.foldl MarkovDecision.relax (distances, false) = progress at round ⊢
      dsimp only
      split
      · exact (ih progress.1).trans round
      · exact round

theorem exists_start_le {rounds : Nat} {start : S} {distances : Distances S Rat}
    (found : distancesFrom arcs rounds start = some distances) :
    ∃ distance, recorded distances start = some distance ∧ distance ≤ 0 := by
  unfold distancesFrom at found
  dsimp only at found
  split at found
  · cases found
  · cases found
    exact undercuts_relaxRounds arcs rounds _ start 0 (by simp)

omit [TransOrd S] [LawfulEqOrd S] in
/-- Where no arc can be relaxed, distances grow along a route by no more than it is long. -/
theorem IsRoute.exists_le_of_settled {distances : Distances S Rat}
    (settled : ∀ arc ∈ arcs, arc.shortens distances = false) {start stop : S}
    {route : List (Arc S Rat)} (isRoute : IsRoute arcs start route stop) {distance : Rat}
    (found : recorded distances start = some distance) :
    ∃ own, recorded distances stop = some own ∧ own ≤ distance + routeLength route := by
  induction route generalizing start distance with
  | nil =>
      rw [isRoute_nil] at isRoute
      exact ⟨distance, isRoute ▸ found, by simp⟩
  | cons arc route ih =>
      obtain ⟨member, rfl, onward⟩ := isRoute
      have notShorter := settled arc member
      rw [Bool.eq_false_iff, ne_eq, Arc.shortens_iff] at notShorter
      push Not at notShorter
      obtain ⟨between, betweenFound, betweenLe⟩ := notShorter distance found
      obtain ⟨own, ownFound, ownLe⟩ := ih onward betweenFound
      refine ⟨own, ownFound, ownLe.trans ?_⟩
      rw [routeLength_cons]
      linarith

/-- Where distances are found, no circuit that can be come to has negative length. -/
theorem noGainFrom_of_distancesFrom {rounds : Nat} {start : S} {distances : Distances S Rat}
    (found : distancesFrom arcs rounds start = some distances) : NoGainFrom arcs start := by
  have settled := shortens_of_distancesFrom found
  intro before circuit state toState around
  obtain ⟨atStart, startFound, -⟩ := exists_start_le found
  obtain ⟨distance, stateFound, -⟩ := toState.exists_le_of_settled settled startFound
  obtain ⟨again, againFound, againLe⟩ := around.exists_le_of_settled settled stateFound
  rw [stateFound, Option.some.injEq] at againFound
  linarith

section Comparing

variable {others : List (Arc S Rat)}

omit [Ord S] [TransOrd S] [LawfulEqOrd S] in
theorem IsRoute.mono (within : arcs ⊆ others) {start stop : S} {route : List (Arc S Rat)}
    (isRoute : IsRoute arcs start route stop) : IsRoute others start route stop := by
  induction route generalizing start with
  | nil => exact isRoute
  | cons arc route ih =>
      obtain ⟨member, tailEq, onward⟩ := isRoute
      exact ⟨within member, tailEq, ih onward⟩

theorem undercuts_distancesFrom (within : arcs ⊆ others) {rounds otherRounds : Nat} {start : S}
    {distances closer : Distances S Rat}
    (found : distancesFrom arcs rounds start = some distances)
    (closerFound : distancesFrom others otherRounds start = some closer) :
    Undercuts closer distances := by
  intro state distance stateFound
  obtain ⟨route, isRoute, rfl⟩ := recordsRoutes_distancesFrom found state distance stateFound
  obtain ⟨atStart, startFound, startLe⟩ := exists_start_le closerFound
  obtain ⟨own, ownFound, ownLe⟩ := (isRoute.mono within).exists_le_of_settled
    (shortens_of_distancesFrom closerFound) startFound
  exact ⟨own, ownFound, by linarith⟩

omit [TransOrd S] [LawfulEqOrd S] in
theorem Undercuts.antisymm {first second : Distances S Rat} (below : Undercuts first second)
    (above : Undercuts second first) (state : S) :
    recorded first state = recorded second state := by
  cases found : recorded first state with
  | some distance =>
      obtain ⟨other, otherFound, otherLe⟩ := above state distance found
      obtain ⟨again, againFound, againLe⟩ := below state other otherFound
      rw [found, Option.some.injEq] at againFound
      rw [otherFound, Option.some.injEq]
      linarith
  | none =>
      cases otherFound : recorded second state with
      | none => rfl
      | some other =>
          obtain ⟨again, againFound, -⟩ := below state other otherFound
          rw [found] at againFound
          cases againFound

end Comparing

end Relaxing

namespace Model

variable {S A : Type} [Ord S] [TransOrd S] [LawfulEqOrd S] [Ord A] {model : Model S A Rat}
  {targets : LabelSet S}

/-- No transition of a state outside the targets has a positive weight. -/
def NeverGains (model : Model S A Rat) (targets : LabelSet S) : Prop :=
  ∀ state, ¬targets.contains state = true → ∀ transition ∈ model.outgoing state,
    transition.weight ≤ 0

theorem NeverGains.length_nonneg (neverGains : model.NeverGains targets)
    (wellFormed : model.WellFormed) : ∀ arc ∈ model.reversedArcs targets, 0 ≤ arc.length := by
  intro arc member
  obtain ⟨source, transition, leaves, noTarget, rfl⟩ :=
    (wellFormed.mem_reversedArcs_iff targets arc).mp member
  exact neg_nonneg.mpr (neverGains source noTarget transition leaves)

theorem WellFormed.exists_distancesFrom (wellFormed : model.WellFormed) {start : S}
    (known : model.contains start = true) (noGain : NoGainFrom (model.reversedArcs targets) start) :
    ∃ distances, distancesFrom (model.reversedArcs targets) (model.size - 1) start =
      some distances := by
  have enough : model.states.toList.length ≤ model.size - 1 + 1 := by
    rw [size, Array.length_toList]
    omega
  exact MarkovDecision.exists_distancesFrom ((wellFormed.mem_states_iff start).mpr known)
    wellFormed.head_mem_states noGain enough

theorem NeverGains.exists_distancesToTargets (neverGains : model.NeverGains targets)
    (wellFormed : model.WellFormed) :
    ∃ distances, model.distancesToTargets targets = .ok distances := by
  rw [distancesToTargets_eq]
  apply exists_foldlM_eq_ok
  intro target listed best
  obtain ⟨distances, found⟩ := wellFormed.exists_distancesFrom (List.mem_filter.mp listed).2
    (noGainFrom_of_nonneg (neverGains.length_nonneg wellFormed) target)
  exact ⟨model.takeShorter best distances, by rw [distancePass, found]⟩

theorem WellFormed.contains_of_distance (wellFormed : model.WellFormed)
    {distances : Distances S Rat} (measured : model.distancesToTargets targets = .ok distances)
    {state : S} {distance : Rat} (found : recorded distances state = some distance) :
    model.contains state = true := by
  have listed := (recorded_eq_some_iff distances state distance).mp found
  rw [← wellFormed.contains_distancesToTargets measured, TreeMap.contains_eq_isSome_getElem?,
    listed]
  rfl

/-- A route from one of the targets to a state has the given length. -/
def HasRoute (model : Model S A Rat) (targets : LabelSet S) (state : S) (length : Rat) : Prop :=
  ∃ target route, targets.contains target = true ∧ model.contains target = true ∧
    IsRoute (model.reversedArcs targets) target route state ∧ routeLength route = length

theorem WellFormed.hasRoute_distance (wellFormed : model.WellFormed)
    {distances : Distances S Rat} (measured : model.distancesToTargets targets = .ok distances)
    {state : S} (known : model.contains state = true) {distance : Rat}
    (found : recorded distances state = some distance) : model.HasRoute targets state distance := by
  rw [distancesToTargets_eq] at measured
  have atEnd := foldlM_induction (motive := fun starts best =>
    starts ⊆ targets.toList.filter model.contains ∧
      ∀ distance, recorded best state = some distance → model.HasRoute targets state distance)
    ?_ measured ⟨List.Subset.refl _, fun distance found => by
      rw [wellFormed.recorded_infinitelyFar] at found
      cases found⟩
  · exact atEnd.2 distance found
  · rintro target later best after ⟨listed, before⟩ passed
    obtain ⟨targetListed, laterListed⟩ := List.cons_subset.mp listed
    obtain ⟨targetMem, targetKnown⟩ := List.mem_filter.mp targetListed
    obtain ⟨single, fromTarget, rfl⟩ := distancePass_eq_ok passed
    refine ⟨laterListed, fun distance afterFound => ?_⟩
    have chosen := wellFormed.recorded_takeShorter best single known
    rw [chosen] at afterFound
    rcases lesser_eq_some afterFound with fromSingle | fromBest
    · obtain ⟨route, isRoute, lengthEq⟩ :=
        recordsRoutes_distancesFrom fromTarget state distance fromSingle
      exact ⟨target, route, TreeSet.mem_toList.mp targetMem, targetKnown, isRoute, lengthEq⟩
    · exact before distance fromBest

theorem Potential.shortens_eq_false (wellFormed : model.WellFormed)
    {distances : Distances S Rat} (potential : model.Potential targets distances) :
    ∀ arc ∈ model.reversedArcs targets, arc.shortens distances = false := by
  intro arc member
  obtain ⟨source, transition, leaves, noTarget, rfl⟩ :=
    (wellFormed.mem_reversedArcs_iff targets arc).mp member
  rw [Bool.eq_false_iff, ne_eq, Arc.shortens_iff]
  rintro ⟨distance, found, isLess⟩
  obtain ⟨own, ownFound, ownLe⟩ :=
    potential source transition leaves noTarget distance found
  have contradiction := isLess own ownFound
  simp only [transitionLength] at contradiction
  linarith

theorem WellFormed.exists_distance_le (wellFormed : model.WellFormed)
    {distances : Distances S Rat} (measured : model.distancesToTargets targets = .ok distances)
    {state : S} {length : Rat} (hasRoute : model.HasRoute targets state length) :
    ∃ distance, recorded distances state = some distance ∧ distance ≤ length := by
  obtain ⟨target, route, isTarget, known, isRoute, rfl⟩ := hasRoute
  have atTarget := wellFormed.recorded_target measured isTarget known
  have settled :=
    (wellFormed.potential_distancesToTargets measured).shortens_eq_false wellFormed
  simpa using isRoute.exists_le_of_settled settled atTarget

/-- The states at a finite distance are those from which a walk comes to a target. -/
theorem WellFormed.exists_distance_iff (wellFormed : model.WellFormed)
    {distances : Distances S Rat} (measured : model.distancesToTargets targets = .ok distances)
    (state : S) :
    (∃ distance, recorded distances state = some distance) ↔
      ∃ target ∈ targets, model.contains target = true ∧ Walk model.successors state target := by
  constructor
  · rintro ⟨distance, found⟩
    obtain ⟨target, route, isTarget, known, isRoute, -⟩ :=
      wellFormed.hasRoute_distance measured (wellFormed.contains_of_distance measured found) found
    refine ⟨target, isTarget, known, ?_⟩
    clear isTarget known
    induction route generalizing target with
    | nil =>
        rw [isRoute_nil] at isRoute
        exact isRoute ▸ Relation.ReflTransGen.refl
    | cons arc route ih =>
        obtain ⟨member, tailEq, onward⟩ := isRoute
        obtain ⟨source, transition, leaves, -, rfl⟩ :=
          (wellFormed.mem_reversedArcs_iff targets arc).mp member
        exact (ih source onward).tail
          ((mem_successors_iff model source target).mpr ⟨transition, leaves, tailEq⟩)
  · rintro ⟨target, isTarget, known, walk⟩
    induction walk using Relation.ReflTransGen.head_induction_on with
    | refl => exact ⟨0, wellFormed.recorded_target measured isTarget known⟩
    | @head label next isNext _ ih =>
        obtain ⟨transition, leaves, rfl⟩ := (mem_successors_iff model label next).mp isNext
        by_cases labelTarget : targets.contains label = true
        · exact ⟨0, wellFormed.recorded_target measured labelTarget
            (contains_of_mem_outgoing leaves)⟩
        · obtain ⟨distance, found⟩ := ih
          obtain ⟨own, ownFound, -⟩ := wellFormed.potential_distancesToTargets measured label
            transition leaves labelTarget distance found
          exact ⟨own, ownFound⟩

theorem NeverGains.distance_nonneg (neverGains : model.NeverGains targets)
    (wellFormed : model.WellFormed) {distances : Distances S Rat}
    (measured : model.distancesToTargets targets = .ok distances) {state : S}
    (known : model.contains state = true) {distance : Rat}
    (found : recorded distances state = some distance) : 0 ≤ distance := by
  obtain ⟨target, route, -, -, isRoute, rfl⟩ := wellFormed.hasRoute_distance measured known found
  exact isRoute.length_nonneg (neverGains.length_nonneg wellFormed)

end Model

end MarkovDecision
