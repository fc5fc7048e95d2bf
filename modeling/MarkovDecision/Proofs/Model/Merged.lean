import Mathlib.Data.Quot
import MarkovDecision.Proofs.Model.Renamed

/-!
# States as the order tells them apart

Labels that the order cannot tell apart name one state.  Taken for one label they have an order
that tells all of them apart, and every model has an image over them.  What is shown of a model
whose labels are all told apart therefore holds of every model, as far as its image shows it.
-/

namespace MarkovDecision

open Std

variable {S : Type} [Ord S] [TransOrd S]

namespace Model

/-- States are the same where they compare equal. -/
def sameState (S : Type) [Ord S] [TransOrd S] : Setoid S where
  r first second := compare first second = .eq
  iseqv := ⟨fun _ => ReflCmp.compare_self, OrientedCmp.eq_symm, TransCmp.eq_trans⟩

theorem mk_sameState_eq_iff {first second : S} :
    (Quotient.mk (sameState S) first = Quotient.mk (sameState S) second) ↔
      compare first second = .eq :=
  Quotient.eq

end Model

/-- The labels, those that compare equal taken for one. -/
abbrev Merged (S : Type) [Ord S] [TransOrd S] : Type :=
  Quotient (Model.sameState S)

/-- The label that stands for all that compare equal to a label. -/
def merged (label : S) : Merged S :=
  Quotient.mk (Model.sameState S) label

instance : Ord (Merged S) where
  compare := Quotient.lift₂ compare fun _ _ _ _ same alsoSame =>
    (TransCmp.congr_left same).trans (TransCmp.congr_right alsoSame)

theorem compare_merged (first second : S) :
    compare (merged first) (merged second) = compare first second :=
  rfl

theorem surjective_merged : Function.Surjective (merged : S → Merged S) :=
  Quotient.mk_surjective

instance : TransOrd (Merged S) where
  eq_swap {first second} := by
    obtain ⟨first, rfl⟩ := surjective_merged first
    obtain ⟨second, rfl⟩ := surjective_merged second
    rw [compare_merged, compare_merged]
    exact OrientedCmp.eq_swap
  isLE_trans {first middle last} := by
    obtain ⟨first, rfl⟩ := surjective_merged first
    obtain ⟨middle, rfl⟩ := surjective_merged middle
    obtain ⟨last, rfl⟩ := surjective_merged last
    simp only [compare_merged]
    exact TransCmp.isLE_trans

instance : LawfulEqOrd (Merged S) where
  eq_of_compare {first second} same := by
    obtain ⟨first, rfl⟩ := surjective_merged first
    obtain ⟨second, rfl⟩ := surjective_merged second
    exact Model.mk_sameState_eq_iff.mpr same

theorem isRenaming_merged : IsRenaming (merged : S → Merged S) :=
  ⟨compare_merged, surjective_merged⟩

/-- Tables with the same keys, in which the values of one are what is made of those of the other. -/
theorem values_eq_map_values {V W : Type} {table : TreeMap S W} {other : TreeMap S V}
    {make : V → W} (same : ∀ key : S, table[key]? = other[key]?.map make) :
    table.values = other.values.map make := by
  obtain ⟨image, isImage⟩ := exists_tableImage isRenaming_merged other make
  have isImageToo : TableImage merged (fun value other => id value = other) table image :=
    tableImage_of_getElem?_eq fun key => by rw [isImage.getElem?_eq, same, Option.map_id_apply]
  have listedAlike := (isImageToo.toList_eq_map isRenaming_merged).symm.trans
    (isImage.toList_eq_map isRenaming_merged)
  have valuesAlike := congrArg (List.map Prod.snd) listedAlike
  rw [List.map_map, List.map_map] at valuesAlike
  rw [values_eq_map, values_eq_map, List.map_map]
  exact valuesAlike

/-- A model and a set of its labels have images over the merged labels. -/
theorem Model.WellFormed.exists_merged {A R : Type} [Ord A] {model : Model S A R}
    (wellFormed : model.WellFormed) (targets : LabelSet S) :
    ∃ (image : Model (Merged S) A R) (others : LabelSet (Merged S)),
      image.WellFormed ∧ model.IsImage merged id image ∧ SetImage merged targets others := by
  obtain ⟨image, isImage⟩ := Model.exists_isImage isRenaming_merged id model
  obtain ⟨others, sameTargets⟩ := exists_setImage isRenaming_merged targets
  exact ⟨image, others, isImage.wellFormed isRenaming_merged wellFormed, isImage, sameTargets⟩

end MarkovDecision
