import MarkovDecision.Closure
import Mathlib.Data.List.Basic
import Mathlib.Logic.Relation

/-!
# Closures hold what walks from the seeds come to

Growing a set by neighbours never leaves the states that walks come to.  A round that finds
something new takes at least one state from those not seen yet, so after as many rounds as there
are states nothing new is left and the set is closed under neighbours.
-/

namespace MarkovDecision

open Std

variable {S : Type} [Ord S] [TransOrd S] [LawfulEqOrd S]

/-- A walk from one state to another along neighbours. -/
abbrev Walk (neighbours : S → List S) : S → S → Prop :=
  Relation.ReflTransGen fun state next => next ∈ neighbours state

theorem mem_foldl_discover_seen (labels : List S) (found : LabelSet S × List S) (state : S) :
    state ∈ (labels.foldl discover found).1 ↔ state ∈ found.1 ∨ state ∈ labels := by
  induction labels generalizing found with
  | nil => simp
  | cons label labels ih =>
      rw [List.foldl_cons, ih, List.mem_cons]
      unfold discover
      split
      · rename_i known
        constructor
        · rintro (old | later)
          · exact Or.inl old
          · exact Or.inr (Or.inr later)
        · rintro (old | same | later)
          · exact Or.inl old
          · rw [same]
            exact Or.inl (TreeSet.mem_iff_contains.mpr known)
          · exact Or.inr later
      · rw [TreeSet.mem_insert, Std.compare_eq_iff_eq, or_assoc, eq_comm]
        tauto

theorem mem_foldl_discover_found (labels : List S) (found : LabelSet S × List S) (state : S) :
    state ∈ (labels.foldl discover found).2 ↔
      state ∈ found.2 ∨ (state ∈ labels ∧ state ∉ found.1) := by
  induction labels generalizing found with
  | nil => simp
  | cons label labels ih =>
      rw [List.foldl_cons, ih, List.mem_cons]
      unfold discover
      split
      · rename_i known
        have labelMem : label ∈ found.1 := TreeSet.mem_iff_contains.mpr known
        constructor
        · rintro (old | ⟨later, fresh⟩)
          · exact Or.inl old
          · exact Or.inr ⟨Or.inr later, fresh⟩
        · rintro (old | ⟨same | later, fresh⟩)
          · exact Or.inl old
          · rw [same] at fresh
            exact (fresh labelMem).elim
          · exact Or.inr ⟨later, fresh⟩
      · rename_i unknown
        have labelFresh : label ∉ found.1 := fun member =>
          unknown (TreeSet.mem_iff_contains.mp member)
        rw [TreeSet.mem_insert, Std.compare_eq_iff_eq, List.mem_cons]
        by_cases same : state = label
        · subst same
          simp [labelFresh]
        · have other : ¬label = state := fun equal => same equal.symm
          simp [same, other]

/-- What holds while a set grows: all newest members are in the set, the neighbours of the others
too, and no more states are missing than there are rounds left. -/
structure Growing (neighbours : S → List S) (candidates : List S) (rounds : Nat)
    (seen : LabelSet S) (newest : List S) : Prop where
  newest_mem : ∀ state ∈ newest, state ∈ seen
  closed : ∀ state ∈ seen, state ∉ newest → ∀ next ∈ neighbours state, next ∈ seen
  missing_le : (candidates.filter fun state => !seen.contains state).length ≤ rounds

namespace Growing

variable {neighbours : S → List S} {candidates : List S} {rounds : Nat} {seen : LabelSet S}
  {newest : List S}

theorem next (growing : Growing neighbours candidates (rounds + 1) seen newest)
    (within : ∀ state, ∀ next ∈ neighbours state, next ∈ candidates)
    (finds : ((newest.flatMap neighbours).foldl discover (seen, [])).2 ≠ []) :
    Growing neighbours candidates rounds
      ((newest.flatMap neighbours).foldl discover (seen, [])).1
      ((newest.flatMap neighbours).foldl discover (seen, [])).2 := by
  have seenIff := mem_foldl_discover_seen (newest.flatMap neighbours) (seen, [])
  have foundIff := mem_foldl_discover_found (newest.flatMap neighbours) (seen, [])
  refine ⟨?_, ?_, ?_⟩
  · intro state found
    rcases (foundIff state).mp found with impossible | ⟨member, -⟩
    · cases impossible
    · exact (seenIff state).mpr (Or.inr member)
  · intro state member notFound next isNext
    rw [seenIff] at member
    rw [foundIff] at notFound
    have old : state ∈ seen := by
      by_contra fresh
      exact notFound (Or.inr ⟨member.resolve_left fresh, fresh⟩)
    rw [seenIff]
    by_cases isNewest : state ∈ newest
    · exact Or.inr (List.mem_flatMap.mpr ⟨state, isNewest, isNext⟩)
    · exact Or.inl (growing.closed state old isNewest next isNext)
  · obtain ⟨state, found⟩ := List.exists_mem_of_ne_nil _ finds
    rcases (foundIff state).mp found with impossible | ⟨member, fresh⟩
    · cases impossible
    · obtain ⟨origin, -, isNext⟩ := List.mem_flatMap.mp member
      have isMissing : state ∈ candidates.filter fun state => !seen.contains state := by
        rw [List.mem_filter]
        refine ⟨within origin state isNext, ?_⟩
        rw [Bool.not_eq_true', ← Bool.not_eq_true, ← TreeSet.mem_iff_contains]
        exact fresh
      have fewer : (candidates.filter fun state =>
            !((newest.flatMap neighbours).foldl discover (seen, [])).1.contains state).length <
          (candidates.filter fun state => !seen.contains state).length := by
        have sameFilter : (candidates.filter fun state =>
              !((newest.flatMap neighbours).foldl discover (seen, [])).1.contains state) =
            (candidates.filter fun state => !seen.contains state).filter fun state =>
              !((newest.flatMap neighbours).foldl discover (seen, [])).1.contains state := by
          rw [List.filter_filter]
          apply List.filter_congr
          intro other _
          rw [Bool.eq_iff_iff, Bool.and_eq_true]
          simp only [Bool.not_eq_true', ← Bool.not_eq_true, ← TreeSet.mem_iff_contains, seenIff]
          tauto
        rw [sameFilter, List.length_filter_lt_length_iff_exists]
        refine ⟨state, isMissing, ?_⟩
        simpa [← TreeSet.mem_iff_contains, seenIff] using Or.inr member
      have bound := growing.missing_le
      omega

omit [TransOrd S] [LawfulEqOrd S] in
theorem closed_of_no_rounds (growing : Growing neighbours candidates 0 seen newest)
    (within : ∀ state, ∀ next ∈ neighbours state, next ∈ candidates)
    {state next : S} (isNext : next ∈ neighbours state) : next ∈ seen := by
  have noneMissing := List.length_eq_zero_iff.mp (Nat.le_zero.mp growing.missing_le)
  have present := List.filter_eq_nil_iff.mp noneMissing next (within state next isNext)
  rw [TreeSet.mem_iff_contains]
  simpa using present

end Growing

theorem subset_grow (neighbours : S → List S) (rounds : Nat) (seen : LabelSet S)
    (newest : List S) {state : S} (member : state ∈ seen) :
    state ∈ grow neighbours rounds seen newest := by
  induction rounds generalizing seen newest with
  | zero => exact member
  | succ rounds ih =>
      have kept := (mem_foldl_discover_seen (newest.flatMap neighbours) (seen, []) state).mpr
        (Or.inl member)
      unfold grow
      dsimp only
      split
      · exact kept
      · exact ih _ _ kept

theorem grow_closed (neighbours : S → List S) {candidates : List S}
    (within : ∀ state, ∀ next ∈ neighbours state, next ∈ candidates) (rounds : Nat)
    (seen : LabelSet S) (newest : List S)
    (growing : Growing neighbours candidates rounds seen newest) {state next : S}
    (member : state ∈ grow neighbours rounds seen newest) (isNext : next ∈ neighbours state) :
    next ∈ grow neighbours rounds seen newest := by
  induction rounds generalizing seen newest with
  | zero => exact growing.closed_of_no_rounds within isNext
  | succ rounds ih =>
      have seenIff := mem_foldl_discover_seen (newest.flatMap neighbours) (seen, [])
      have foundIff := mem_foldl_discover_found (newest.flatMap neighbours) (seen, [])
      unfold grow at member ⊢
      dsimp only at member ⊢
      split at member
      · rename_i nothingFound
        rw [if_pos nothingFound]
        have old : ∀ other, other ∈ ((newest.flatMap neighbours).foldl discover (seen, [])).1 →
            other ∈ seen := by
          intro other otherMem
          rcases (seenIff other).mp otherMem with old | fromNewest
          · exact old
          · by_contra fresh
            have found := (foundIff other).mpr (Or.inr ⟨fromNewest, fresh⟩)
            rw [List.isEmpty_iff.mp nothingFound] at found
            cases found
        rw [seenIff]
        by_cases isNewest : state ∈ newest
        · exact Or.inr (List.mem_flatMap.mpr ⟨state, isNewest, isNext⟩)
        · exact Or.inl (growing.closed state (old state member) isNewest next isNext)
      · rename_i somethingFound
        rw [if_neg somethingFound]
        exact ih _ _ (growing.next within (by simpa using somethingFound)) member

theorem grow_sound (neighbours : S → List S) (seeds : List S) (rounds : Nat)
    (seen : LabelSet S) (newest : List S)
    (seenSound : ∀ state ∈ seen, ∃ seed ∈ seeds, Walk neighbours seed state)
    (newestSound : ∀ state ∈ newest, ∃ seed ∈ seeds, Walk neighbours seed state)
    {state : S} (member : state ∈ grow neighbours rounds seen newest) :
    ∃ seed ∈ seeds, Walk neighbours seed state := by
  induction rounds generalizing seen newest with
  | zero => exact seenSound state member
  | succ rounds ih =>
      have steps : ∀ other ∈ newest.flatMap neighbours,
          ∃ seed ∈ seeds, Walk neighbours seed other := by
        intro other otherMem
        obtain ⟨origin, originMem, isNext⟩ := List.mem_flatMap.mp otherMem
        obtain ⟨seed, seedMem, walk⟩ := newestSound origin originMem
        exact ⟨seed, seedMem, walk.tail isNext⟩
      have seenSound' : ∀ other ∈ ((newest.flatMap neighbours).foldl discover (seen, [])).1,
          ∃ seed ∈ seeds, Walk neighbours seed other := by
        intro other otherMem
        rcases (mem_foldl_discover_seen _ _ _).mp otherMem with old | later
        · exact seenSound other old
        · exact steps other later
      unfold grow at member
      dsimp only at member
      split at member
      · exact seenSound' state member
      · refine ih _ _ seenSound' ?_ member
        intro other otherMem
        rcases (mem_foldl_discover_found _ _ _).mp otherMem with impossible | ⟨later, -⟩
        · cases impossible
        · exact steps other later

/-- The closure holds exactly the states that walks from the seeds come to. -/
theorem mem_closure_iff (neighbours : S → List S) {bound : Nat} (seeds : List S)
    {candidates : List S} (within : ∀ state, ∀ next ∈ neighbours state, next ∈ candidates)
    (length_le : candidates.length ≤ bound) (state : S) :
    state ∈ closure neighbours bound seeds ↔ ∃ seed ∈ seeds, Walk neighbours seed state := by
  have seenIff := mem_foldl_discover_seen seeds ((∅ : LabelSet S), [])
  have foundIff := mem_foldl_discover_found seeds ((∅ : LabelSet S), [])
  have isSeed : ∀ other, other ∈ (seeds.foldl discover ((∅ : LabelSet S), [])).1 ↔
      other ∈ seeds := by
    intro other
    rw [seenIff]
    simp
  have isFound : ∀ other, other ∈ (seeds.foldl discover ((∅ : LabelSet S), [])).2 ↔
      other ∈ seeds := by
    intro other
    rw [foundIff]
    simp
  have selfWalk : ∀ other ∈ seeds, ∃ seed ∈ seeds, Walk neighbours seed other :=
    fun other otherMem => ⟨other, otherMem, Relation.ReflTransGen.refl⟩
  unfold closure
  dsimp only
  constructor
  · refine grow_sound neighbours seeds bound _ _ ?_ ?_
    · intro other otherMem
      exact selfWalk other ((isSeed other).mp otherMem)
    · intro other otherMem
      exact selfWalk other ((isFound other).mp otherMem)
  · rintro ⟨seed, seedMem, walk⟩
    have growing : Growing neighbours candidates bound
        (seeds.foldl discover ((∅ : LabelSet S), [])).1
        (seeds.foldl discover ((∅ : LabelSet S), [])).2 := by
      refine ⟨?_, ?_, Nat.le_trans (List.length_filter_le _ _) length_le⟩
      · intro other otherMem
        exact (isSeed other).mpr ((isFound other).mp otherMem)
      · intro other otherMem notNewest
        exact (notNewest ((isFound other).mpr ((isSeed other).mp otherMem))).elim
    induction walk with
    | refl => exact subset_grow _ _ _ _ ((isSeed seed).mpr seedMem)
    | tail _ isNext ih => exact grow_closed neighbours within bound _ _ growing ih isNext

end MarkovDecision
