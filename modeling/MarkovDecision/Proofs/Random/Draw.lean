import MarkovDecision.Random.Draw
import MarkovDecision.Proofs.Folds

/-!
# What can be drawn

Something is drawn from every list that is not empty, and from every distribution whose weights
can be cumulated.  Reading words until one is accepted ends on listed words, with the index that
they are said to yield.

A draw by weight reads one long word and nothing else from its source.  So what can be drawn from
a distribution does not depend on the kind of source, and the words for several draws can be
listed one after the other.
-/

namespace MarkovDecision

open Std

section Entries

variable {G : Type} [RandomSource G]

theorem drawEntry_eq_none_iff {E : Type} (entries : List E) (source : G) :
    (drawEntry entries source).1 = none ↔ entries = [] := by
  cases entries with
  | nil => simp [drawEntry]
  | cons first rest => simp [drawEntry]

theorem mem_of_drawEntry {E : Type} {entries : List E} {source : G} {entry : E}
    (drawn : (drawEntry entries source).1 = some entry) : entry ∈ entries := by
  cases entries with
  | nil => cases drawn
  | cons first rest =>
      cases drawn
      exact List.get_mem _ _

end Entries

section Rejection

theorem acceptedIndex?_zero (last : Nat) :
    acceptedIndex? last 0 = some ⟨0, Nat.succ_pos last⟩ := by
  simp [acceptedIndex?]

theorem drawIndex_eq {G : Type} [WordSource G] (last : Nat) (source : G) :
    drawIndex last source =
      match readIndex last source with
      | .inl rest => drawIndex last rest
      | .inr drawn => drawn := by
  have : Nonempty (Fin (last + 1) × G) := ⟨⟨0, Nat.succ_pos last⟩, source⟩
  have step := repeatM_eq_of_monadTail (m := Id)
    (f := fun source => pure (readIndex last source)) source
  rw [drawIndex, step, repeatM.body, pure_bind]
  cases readIndex last source with
  | inl rest => rfl
  | inr drawn => rfl

/-- Listed words yield the index that reading words until one is accepted ends with. -/
theorem drawIndex_eq_index (last : Nat) (source : ListedWords) :
    drawIndex last source = RandomSource.index last source := by
  obtain ⟨words⟩ := source
  change drawIndex last ⟨words⟩ = ListedWords.index last words
  induction words with
  | nil =>
      rw [drawIndex_eq]
      simp only [readIndex, WordSource.next, acceptedIndex?_zero, ListedWords.index]
  | cons word rest ih =>
      rw [drawIndex_eq]
      simp only [readIndex, WordSource.next, ListedWords.index]
      cases acceptedIndex? last word with
      | none => exact ih
      | some index => rfl

end Rejection

section Weights

variable {R : Type} [Number R]

theorem length_cumulate (weights : List R) (total : R) :
    (cumulate total weights).1.length = weights.length := by
  induction weights generalizing total with
  | nil => rfl
  | cons weight rest ih => exact congrArg Nat.succ (ih (total + weight))

/-- The last entry needs no sum, since it is what is drawn when the share exceeds all others. -/
theorem length_of_cumulatedWeights {weights sums : List R} {total : R}
    (weighed : cumulatedWeights weights = .ok (sums, total)) :
    sums.length + 1 = weights.length := by
  unfold cumulatedWeights at weighed
  split at weighed
  · cases weighed
  · dsimp only at weighed
    split at weighed
    · cases weighed
    · split at weighed
      · cases weighed
      · split at weighed
        · cases weighed
          rw [length_cumulate, List.length_cons]
        · cases weighed

end Weights

variable {S R : Type} [Ord S] [Number R]

/-- A draw by weight fails where the weights cannot be cumulated, and nowhere else. -/
theorem drawState_cases {G : Type} [WordSource G] (distribution : Distribution S R) (source : G) :
    (∃ error, cumulatedWeights distribution.values = .error error ∧
      drawState distribution source = (.error error, source)) ∨
      ∃ next rest, drawState distribution source = (.ok next, rest) := by
  cases weighed : cumulatedWeights distribution.values with
  | error error => exact Or.inl ⟨error, rfl, by simp only [drawState, weighed]⟩
  | ok weights =>
      obtain ⟨sums, total⟩ := weights
      have lengthEq : sums.length + 1 = distribution.keys.length := by
        rw [length_of_cumulatedWeights weighed, values_eq_map, ← TreeMap.map_fst_toList_eq_keys,
          List.length_map, List.length_map]
      have inside : (sums.filter fun sum =>
          sum ≤ (drawShare total source).1).length < distribution.keys.length := by
        rw [← lengthEq]
        exact Nat.lt_succ_of_le (List.length_filter_le _ _)
      refine Or.inr ⟨distribution.keys[(sums.filter fun sum =>
        sum ≤ (drawShare total source).1).length], (drawShare total source).2, ?_⟩
      simp only [drawState, weighed, List.getElem?_eq_getElem inside]

/-- Whether there are words that make a distribution yield a state. -/
def Drawable (distribution : Distribution S R) (next : S) : Prop :=
  ∃ low high : UInt32, ∀ rest : List UInt32,
    drawState distribution (⟨low :: high :: rest⟩ : ListedWords) = (.ok next, ⟨rest⟩)

/-- What is drawn from any source can be drawn from listed words. -/
theorem drawable_of_drawState {G : Type} [WordSource G] {distribution : Distribution S R}
    {next : S} {source rest : G} (drawn : drawState distribution source = (.ok next, rest)) :
    Drawable distribution next := by
  refine ⟨(WordSource.next source).1, (WordSource.next (WordSource.next source).2).1, ?_⟩
  intro others
  unfold drawState drawShare nextLongWord at drawn ⊢
  cases weighed : cumulatedWeights distribution.values with
  | error error =>
      rw [weighed] at drawn
      cases drawn
  | ok weights =>
      simp only [weighed] at drawn ⊢
      split at drawn
      · rename_i state listed
        cases drawn
        simp only [WordSource.next, listed]
      · cases drawn

theorem Drawable.contains [TransOrd S] {distribution : Distribution S R} {next : S}
    (drawable : Drawable distribution next) : distribution.contains next = true := by
  obtain ⟨low, high, drawn⟩ := drawable
  have fromWords := drawn []
  unfold drawState at fromWords
  split at fromWords
  · cases fromWords
  · dsimp only at fromWords
    split at fromWords
    · rename_i state listed
      cases fromWords
      exact TreeMap.mem_of_mem_keys (List.mem_of_getElem? listed)
    · cases fromWords

end MarkovDecision
