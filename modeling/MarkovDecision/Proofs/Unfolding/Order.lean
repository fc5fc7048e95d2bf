import MarkovDecision.Unfolding
import MarkovDecision.Proofs.Numbers

/-!
# The order of unfolded states and actions

Pairs are ordered by state and then by value, with `bottom` in front; this is a linear preorder
whenever states and keys of numbers are ordered by one.  Two pairs are the same node of an
unfolded model when their states and the keys of their values are.
-/

namespace MarkovDecision

open Std

namespace UnfoldedState

variable {S R : Type} [Ord S] [Number R]

@[simp]
theorem compare_bottom_bottom : compare (bottom : UnfoldedState S R) bottom = .eq :=
  rfl

@[simp]
theorem compare_bottom_pair (state : S) (value : R) : compare bottom (pair state value) = .lt :=
  rfl

@[simp]
theorem compare_pair_bottom (state : S) (value : R) : compare (pair state value) bottom = .gt :=
  rfl

theorem compare_pair_pair (first second : S) (value other : R) :
    compare (pair first value) (pair second other) =
      (compare first second).then (Number.keyOrder value other) :=
  rfl

@[simp]
theorem compare_pair_eq_iff (first second : S) (value other : R) :
    compare (pair first value) (pair second other) = .eq ↔
      compare first second = .eq ∧ Number.keyOrder value other = .eq := by
  rw [compare_pair_pair, Ordering.then_eq_eq]

instance [TransOrd S] [TransCmp (Number.keyOrder : R → R → Ordering)] :
    TransOrd (UnfoldedState S R) where
  eq_swap := by
    intro first second
    cases first with
    | bottom => cases second <;> rfl
    | pair state value =>
        cases second with
        | bottom => rfl
        | pair other otherValue =>
            rw [compare_pair_pair, compare_pair_pair, Ordering.swap_then,
              ← OrientedCmp.eq_swap, ← OrientedCmp.eq_swap]
  isLE_trans := by
    intro first second third firstLe secondLe
    cases first with
    | bottom => cases third <;> rfl
    | pair state value =>
        cases second with
        | bottom => cases firstLe
        | pair other otherValue =>
            cases third with
            | bottom => cases secondLe
            | pair last lastValue =>
                rw [compare_pair_pair, Ordering.isLE_then_iff_or] at firstLe secondLe ⊢
                rcases firstLe with less | ⟨same, valueLe⟩
                · rcases secondLe with alsoLess | ⟨alsoSame, -⟩
                  · exact Or.inl (TransCmp.lt_trans less alsoLess)
                  · exact Or.inl (TransCmp.lt_of_lt_of_eq less alsoSame)
                · rcases secondLe with less | ⟨alsoSame, nextLe⟩
                  · exact Or.inl (TransCmp.lt_of_eq_of_lt same less)
                  · exact Or.inr
                      ⟨TransCmp.eq_trans same alsoSame, TransCmp.isLE_trans valueLe nextLe⟩

instance [LawfulEqOrd S] [LawfulEqCmp (Number.keyOrder : R → R → Ordering)] :
    LawfulEqOrd (UnfoldedState S R) where
  compare_self := by
    intro node
    cases node with
    | bottom => rfl
    | pair state value =>
        exact (compare_pair_eq_iff _ _ _ _).mpr ⟨ReflCmp.compare_self, ReflCmp.compare_self⟩
  eq_of_compare := by
    intro first second same
    cases first with
    | bottom =>
        cases second with
        | bottom => rfl
        | pair => cases same
    | pair state value =>
        cases second with
        | bottom => cases same
        | pair other otherValue =>
            obtain ⟨sameState, sameKey⟩ := (compare_pair_eq_iff _ _ _ _).mp same
            rw [LawfulEqCmp.eq_of_compare sameState, LawfulEqCmp.eq_of_compare sameKey]

end UnfoldedState

namespace UnfoldedAction

variable {A : Type} [Ord A]

@[simp]
theorem compare_loop_loop : compare (loop : UnfoldedAction A) loop = .eq :=
  rfl

@[simp]
theorem compare_loop_take (action : A) : compare loop (take action) = .lt :=
  rfl

@[simp]
theorem compare_take_loop (action : A) : compare (take action) loop = .gt :=
  rfl

@[simp]
theorem compare_take_take (first second : A) :
    compare (take first) (take second) = compare first second :=
  rfl

instance [TransOrd A] : TransOrd (UnfoldedAction A) where
  eq_swap := by
    intro first second
    cases first with
    | loop => cases second <;> rfl
    | take action =>
        cases second with
        | loop => rfl
        | take other =>
            rw [compare_take_take, compare_take_take]
            exact OrientedCmp.eq_swap
  isLE_trans := by
    intro first second third firstLe secondLe
    cases first with
    | loop => cases third <;> rfl
    | take action =>
        cases second with
        | loop => cases firstLe
        | take other =>
            cases third with
            | loop => cases secondLe
            | take last =>
                rw [compare_take_take] at firstLe secondLe ⊢
                exact TransCmp.isLE_trans firstLe secondLe

instance [LawfulEqOrd A] : LawfulEqOrd (UnfoldedAction A) where
  compare_self := by
    intro action
    cases action with
    | loop => rfl
    | take action =>
        rw [compare_take_take]
        exact ReflCmp.compare_self
  eq_of_compare := by
    intro first second same
    cases first with
    | loop =>
        cases second with
        | loop => rfl
        | take other => cases same
    | take action =>
        cases second with
        | loop => cases same
        | take other =>
            rw [compare_take_take] at same
            rw [LawfulEqOrd.eq_of_compare same]

end UnfoldedAction

end MarkovDecision
