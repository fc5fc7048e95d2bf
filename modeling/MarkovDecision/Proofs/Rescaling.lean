import Mathlib.Algebra.Order.Field.Rat
import MarkovDecision.Proofs.Model.Renamed
import MarkovDecision.Proofs.Relaxation

/-!
# Rescaled weights

Values may be moved along, and values and weights may be stretched together: whether a value is
above another, and what a step adds to it, stays the same.  `Rescales` says this of a change of
values and the change of weights that goes with it.  Under such a change of weights the relaxation
of arcs goes on as before, so that the distances to the targets are changed like the weights, and
reward cycles are met on the way from the same targets.
-/

namespace MarkovDecision

open Std (TreeMap TransOrd LawfulEqOrd)

/-- Values are moved, and weights changed, so that sums and comparisons stay the same. -/
structure Rescales (move change : Rat → Rat) : Prop where
  move_add : ∀ value weight, move (value + weight) = move value + change weight
  move_lt_iff : ∀ first second, move first < move second ↔ first < second
  surjective : Function.Surjective move

theorem rescales_shift (shift : Rat) : Rescales (· + shift) id where
  move_add value weight := by
    dsimp only [id]
    ring
  move_lt_iff _ _ := add_lt_add_iff_right shift
  surjective value := ⟨value - shift, sub_add_cancel value shift⟩

theorem rescales_stretch {scale : Rat} (isPositive : 0 < scale) :
    Rescales (scale * ·) (scale * ·) where
  move_add value weight := mul_add scale value weight
  move_lt_iff _ _ := mul_lt_mul_iff_of_pos_left isPositive
  surjective value := ⟨value / scale, mul_div_cancel₀ value isPositive.ne'⟩

namespace Rescales

variable {move change : Rat → Rat} (rescales : Rescales move change)
include rescales

theorem move_le_iff (first second : Rat) : move first ≤ move second ↔ first ≤ second := by
  rw [← not_lt, ← not_lt, rescales.move_lt_iff]

theorem change_eq (weight : Rat) : change weight = move weight - move 0 := by
  have moved := rescales.move_add 0 weight
  rw [zero_add] at moved
  rw [moved, add_sub_cancel_left]

theorem change_zero : change 0 = 0 := by
  rw [rescales.change_eq, sub_self]

theorem change_add (first second : Rat) :
    change (first + second) = change first + change second := by
  rw [rescales.change_eq, rescales.move_add, rescales.change_eq first]
  ring

theorem change_neg (weight : Rat) : change (-weight) = -change weight := by
  rw [eq_neg_iff_add_eq_zero, ← rescales.change_add, neg_add_cancel, rescales.change_zero]

theorem change_lt_iff (first second : Rat) : change first < change second ↔ first < second := by
  rw [rescales.change_eq, rescales.change_eq, sub_lt_sub_iff_right, rescales.move_lt_iff]

theorem move_sub (value loss : Rat) : move (value - loss) = move value - change loss := by
  rw [sub_eq_add_neg, rescales.move_add, rescales.change_neg, sub_eq_add_neg]

end Rescales

/-- An arc with a changed length. -/
def Arc.rescaled {S : Type} (change : Rat → Rat) (arc : Arc S Rat) : Arc S Rat :=
  ⟨arc.tail, arc.head, change arc.length⟩

variable {S : Type} [Ord S] {move change : Rat → Rat}

/-- The distances of one table are those of another, changed like the weights.  An infinite distance
stays infinite. -/
def Rescaled (change : Rat → Rat) (distances others : Distances S Rat) : Prop :=
  TableImage id (fun distance other => distance.map change = other) distances others

theorem Rescaled.recorded_eq {distances others : Distances S Rat}
    (rescaled : Rescaled change distances others) (state : S) :
    recorded others state = (recorded distances state).map change :=
  (rescaled.getD state Number.infinity? Number.infinity? rfl).symm

section Relaxing

variable (rescales : Rescales move change)
include rescales

theorem shorter_rescaled (first second : Option Rat) :
    shorter (first.map change) (second.map change) = shorter first second := by
  cases first <;> cases second <;> simp [shorter, rescales.change_lt_iff]

variable {distances others : Distances S Rat} (rescaled : Rescaled change distances others)
include rescaled

theorem detour_rescaled (arc : Arc S Rat) :
    (arc.rescaled change).detour others = (arc.detour distances).map change := by
  rw [Arc.detour, Arc.detour, Arc.rescaled, rescaled.recorded_eq]
  cases recorded distances arc.tail with
  | none => rfl
  | some distance => exact congrArg some (rescales.change_add distance arc.length).symm

theorem shortens_rescaled (arc : Arc S Rat) :
    (arc.rescaled change).shortens others = arc.shortens distances := by
  rw [Arc.shortens, Arc.shortens, detour_rescaled rescales rescaled, rescaled.recorded_eq]
  exact shorter_rescaled rescales _ _

variable [TransOrd S]

theorem relax_rescaled (changed : Bool) (arc : Arc S Rat) :
    Rescaled change (relax (distances, changed) arc).1
        (relax (others, changed) (arc.rescaled change)).1 ∧
      (relax (others, changed) (arc.rescaled change)).2 = (relax (distances, changed) arc).2 := by
  rw [relax, relax, shortens_rescaled rescales rescaled, detour_rescaled rescales rescaled]
  split
  · exact ⟨rescaled.insert isRenaming_id arc.head rfl, rfl⟩
  · exact ⟨rescaled, rfl⟩

theorem foldl_relax_rescaled (changed : Bool) (arcs : List (Arc S Rat)) :
    Rescaled change (arcs.foldl relax (distances, changed)).1
        ((arcs.map (Arc.rescaled change)).foldl relax (others, changed)).1 ∧
      ((arcs.map (Arc.rescaled change)).foldl relax (others, changed)).2 =
        (arcs.foldl relax (distances, changed)).2 := by
  induction arcs generalizing distances others changed with
  | nil => exact ⟨rescaled, rfl⟩
  | cons arc arcs ih =>
      obtain ⟨relaxed, sameFlag⟩ := relax_rescaled rescales rescaled changed arc
      rw [List.map_cons, List.foldl_cons, List.foldl_cons]
      generalize relax (distances, changed) arc = progress at relaxed sameFlag ⊢
      generalize relax (others, changed) (arc.rescaled change) = other at relaxed sameFlag ⊢
      obtain ⟨distances, changed⟩ := progress
      obtain ⟨others, flag⟩ := other
      cases sameFlag
      exact ih relaxed changed

theorem relaxRounds_rescaled (arcs : List (Arc S Rat)) (rounds : Nat) :
    Rescaled change (relaxRounds arcs rounds distances)
      (relaxRounds (arcs.map (Arc.rescaled change)) rounds others) := by
  induction rounds generalizing distances others with
  | zero => exact rescaled
  | succ rounds ih =>
      obtain ⟨relaxed, sameFlag⟩ := foldl_relax_rescaled rescales rescaled false arcs
      simp only [relaxRounds, sameFlag]
      split
      · exact ih relaxed
      · exact relaxed

omit rescaled in
theorem distancesFrom_rescaled (arcs : List (Arc S Rat)) (rounds : Nat) (start : S) :
    Option.Rel (Rescaled change) (distancesFrom arcs rounds start)
      (distancesFrom (arcs.map (Arc.rescaled change)) rounds start) := by
  have atStart : Rescaled change ((∅ : Distances S Rat).insert start (some 0))
      ((∅ : Distances S Rat).insert start (some 0)) :=
    tableImage_empty.insert isRenaming_id start (congrArg some rescales.change_zero)
  have relaxed := relaxRounds_rescaled rescales atStart arcs rounds
  have sameTest : (arcs.map (Arc.rescaled change)).any
      (·.shortens (relaxRounds (arcs.map (Arc.rescaled change)) rounds
        ((∅ : Distances S Rat).insert start (some 0)))) =
      arcs.any (·.shortens (relaxRounds arcs rounds
        ((∅ : Distances S Rat).insert start (some 0)))) := by
    rw [List.any_map]
    congr 1
    funext arc
    exact shortens_rescaled rescales relaxed arc
  unfold distancesFrom
  dsimp only
  rw [sameTest]
  split
  · exact .none
  · exact .some relaxed

end Relaxing

namespace Model.IsImage

variable {A : Type} {first second : Model S A Rat} (rescales : Rescales move change)
  (isImage : first.IsImage id change second) [TransOrd S]
include rescales isImage

/-- The arcs of the model with changed weights are the rescaled arcs, in the same order. -/
theorem reversedArcs_eq (targets : LabelSet S) :
    second.reversedArcs targets = (first.reversedArcs targets).map (Arc.rescaled change) := by
  have groups : TableImage id (fun arcs others => arcs.map (Arc.rescaled change) = others)
      ((first.transitions.filter fun entry => !targets.contains entry.1).foldl
        (fun groups entry => groups.alter entry.2.target fun arcs? =>
          some (⟨entry.2.target, entry.1, transitionLength entry.2.weight⟩ :: arcs?.getD []))
        (∅ : TreeMap S (List (Arc S Rat))))
      ((second.transitions.filter fun entry => !targets.contains entry.1).foldl
        (fun groups entry => groups.alter entry.2.target fun arcs? =>
          some (⟨entry.2.target, entry.1, transitionLength entry.2.weight⟩ :: arcs?.getD []))
        (∅ : TreeMap S (List (Arc S Rat)))) := by
    rw [isImage.transitions_eq, List.filter_map, List.foldl_map]
    refine List.foldl_rel tableImage_empty ?_
    intro entry _ table image tables
    refine tables.alter isRenaming_id entry.2.target (.some ?_)
    have earlier := tables.getD entry.2.target [] [] rfl
    have sameArc : Arc.rescaled change ⟨entry.2.target, entry.1, transitionLength entry.2.weight⟩ =
        ⟨entry.2.target, entry.1, transitionLength (change entry.2.weight)⟩ :=
      congrArg (Arc.mk _ _) (rescales.change_neg entry.2.weight)
    rw [List.map_cons, sameArc, earlier]
    rfl
  rw [reversedArcs, reversedArcs, isImage.states_eq, List.map_id, List.map_flatMap]
  congr 1
  funext state
  rw [TreeMap.getD_eq_getD_getElem?, TreeMap.getD_eq_getD_getElem?]
  exact (groups.getD state [] [] rfl).symm

omit [TransOrd S] in
theorem takeShorter_rescaled [TransOrd S] {best otherBest added otherAdded : Distances S Rat}
    (rescaledBest : Rescaled change best otherBest)
    (rescaledAdded : Rescaled change added otherAdded) :
    Rescaled change (first.takeShorter best added) (second.takeShorter otherBest otherAdded) := by
  rw [takeShorter, takeShorter, isImage.states_eq, List.map_id]
  refine List.foldl_rel rescaledBest ?_
  intro state _ best otherBest rescaledBest
  rw [rescaledAdded.recorded_eq, rescaledBest.recorded_eq, shorter_rescaled rescales]
  split
  · exact rescaledBest.insert isRenaming_id state rfl
  · exact rescaledBest

omit rescales in
theorem infinitelyFar_rescaled : Rescaled change first.infinitelyFar second.infinitelyFar := by
  rw [infinitelyFar, infinitelyFar, isImage.states_eq, List.map_id]
  refine List.foldl_rel tableImage_empty ?_
  intro state _ distances others rescaled
  exact rescaled.insert isRenaming_id state rfl

theorem distancesToTargets_endAlike (targets : LabelSet S) :
    EndAlike (Rescaled change) (first.distancesToTargets targets)
      (second.distancesToTargets targets) := by
  have sameStates : second.contains = first.contains := funext isImage.contains_eq
  rw [distancesToTargets_eq, distancesToTargets_eq, sameStates]
  refine EndAlike.foldlM ?_ isImage.infinitelyFar_rescaled
  intro start _ best other rescaledBest
  have passes := distancesFrom_rescaled rescales (first.reversedArcs targets) (first.size - 1) start
  rw [distancePass, distancePass, isImage.reversedArcs_eq rescales, isImage.size_eq]
  generalize distancesFrom (first.reversedArcs targets) (first.size - 1) start = found at passes ⊢
  generalize distancesFrom ((first.reversedArcs targets).map (Arc.rescaled change))
    (first.size - 1) start = otherFound at passes ⊢
  cases passes with
  | none => exact .error _
  | some rescaled => exact .ok (isImage.takeShorter_rescaled rescales rescaledBest rescaled)

end Model.IsImage

end MarkovDecision
