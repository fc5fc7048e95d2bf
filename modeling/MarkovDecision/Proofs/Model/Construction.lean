import MarkovDecision.Proofs.Model.Actions

/-!
# Constructions

A model is built by mentioning states and adding transitions.  The calls that build it are read
as a list here, and the model is what they make of the empty one.  The states are those that some
call mentions.  The edge of a triple of source, action and target takes up the calls that add to it,
in their order, and no others.
-/

namespace MarkovDecision

open Std (TransOrd)

/-- A call of one of the operations that build a model. -/
inductive Call (S A R : Type) where
  | state (label : S)
  | transition (source : S) (action : A) (target : S) (probability weight : R)

namespace Call

variable {S A R : Type} [Ord S] [Ord A]

/-- What a call adds to the edge of a triple. -/
def share? (source : S) (action : A) (target : S) : Call S A R → Option (R × R)
  | .state _ => none
  | .transition origin under reached probability weight =>
    if compare origin source = .eq ∧ compare under action = .eq ∧ compare reached target = .eq then
      some (probability, weight)
    else none

/-- A call mentions the label of a state. -/
def Mentions (state : S) : Call S A R → Prop
  | .state label => compare label state = .eq
  | .transition source _ target _ _ => compare target state = .eq ∨ compare source state = .eq

variable [Number R]

def applyTo (model : Model S A R) : Call S A R → Model S A R
  | .state label => model.addState label
  | .transition source action target probability weight =>
    model.addTransition source action target probability weight

end Call

namespace Model

variable {S A R : Type} [Ord S] [Ord A] [Number R]

/-- The model that a list of calls builds. -/
def construct (calls : List (Call S A R)) : Model S A R :=
  calls.foldl Call.applyTo empty

variable [TransOrd S] [TransOrd A]

theorem WellFormed.applyTo {model : Model S A R} (wellFormed : model.WellFormed)
    (call : Call S A R) : (call.applyTo model).WellFormed := by
  cases call with
  | state label => exact wellFormed.addState label
  | transition source action target probability weight =>
      exact wellFormed.addTransition source action target probability weight

theorem wellFormed_construct (calls : List (Call S A R)) : (construct calls).WellFormed := by
  have built (model : Model S A R) (wellFormed : model.WellFormed) :
      (calls.foldl Call.applyTo model).WellFormed := by
    induction calls generalizing model with
    | nil => exact wellFormed
    | cons call calls ih => exact ih (call.applyTo model) (wellFormed.applyTo call)
  exact built empty wellFormed_empty

omit [TransOrd A] in
theorem contains_applyTo (model : Model S A R) (call : Call S A R) (state : S) :
    (call.applyTo model).contains state = true ↔
      model.contains state = true ∨ call.Mentions state := by
  cases call with
  | state label => simp [Call.applyTo, Call.Mentions, or_comm]
  | transition source action target probability weight =>
      rw [Call.applyTo, contains_addTransition, Call.Mentions, ← or_assoc, or_comm]

omit [TransOrd A] in
theorem contains_construct (calls : List (Call S A R)) (state : S) :
    (construct calls).contains state = true ↔ ∃ call ∈ calls, call.Mentions state := by
  have built (model : Model S A R) : (calls.foldl Call.applyTo model).contains state = true ↔
      model.contains state = true ∨ ∃ call ∈ calls, call.Mentions state := by
    induction calls generalizing model with
    | nil => simp
    | cons call calls ih =>
        rw [List.foldl_cons, ih, contains_applyTo, or_assoc]
        simp only [List.mem_cons, exists_eq_or_imp]
  have noneYet : (empty : Model S A R).contains state = false := by simp [contains, empty]
  refine (built empty).trans ?_
  rw [noneYet, Bool.false_eq_true, false_or]

theorem edge?_applyTo (model : Model S A R) (call : Call S A R) (source : S) (action : A)
    (target : S) :
    (call.applyTo model).edge? source action target =
      match call.share? source action target with
      | none => model.edge? source action target
      | some share => some (takeUp (model.edge? source action target) share.1 share.2) := by
  cases call with
  | state label => exact edge?_addState model label source action target
  | transition origin under reached probability weight =>
      rw [Call.applyTo, edge?_addTransition, Call.share?]
      by_cases same : compare origin source = .eq ∧ compare under action = .eq ∧
          compare reached target = .eq
      · rw [if_pos same, if_pos same, edge?_congr model same.1 same.2.1 same.2.2]
      · rw [if_neg same, if_neg same]

/-- The edge of a triple takes up, call by call, what the calls add to it. -/
theorem edge?_construct (calls : List (Call S A R)) (source : S) (action : A) (target : S) :
    (construct calls).edge? source action target =
      (calls.filterMap (Call.share? source action target)).foldl
        (fun edge? share => some (takeUp edge? share.1 share.2)) none := by
  have built (model : Model S A R) :
      (calls.foldl Call.applyTo model).edge? source action target =
        (calls.filterMap (Call.share? source action target)).foldl
          (fun edge? share => some (takeUp edge? share.1 share.2))
          (model.edge? source action target) := by
    induction calls generalizing model with
    | nil => rfl
    | cons call calls ih =>
        rw [List.foldl_cons, ih, edge?_applyTo, List.filterMap_cons]
        cases call.share? source action target <;> rfl
  exact built empty

end Model

end MarkovDecision
