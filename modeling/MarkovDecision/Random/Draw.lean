import MarkovDecision.Model.Basic
import MarkovDecision.Random.Source

/-!
# Random draws

Draws of numbers and of list entries.  Every draw returns the source of the words after those it
used, also where it fails, so that what was drawn stays drawn.

An index is drawn by rejection: words are read until one is accepted.  At least half of all words
are, but not every stream holds one.  Listed words do, since zero is accepted.

A weighted draw looks for the first entry whose cumulated weight exceeds a random share of the
total.  Its weights need not sum to one, but none may be negative and the total must be positive
and finite.
-/

namespace MarkovDecision

/-- Why nothing can be drawn by weight. -/
inductive DrawError where
  /-- There are no entries. -/
  | noEntries
  /-- A weight is negative. -/
  | negativeWeight
  /-- The weights sum to zero. -/
  | zeroTotal
  /-- The weights do not sum to a finite number. -/
  | invalidTotal
  deriving DecidableEq, Repr

/-- The message that tells why nothing can be drawn. -/
def DrawError.message : DrawError → String
  | noEntries => "sampling error: No weights provided."
  | negativeWeight => "sampling error: A weight is invalid."
  | zeroTotal => "sampling error: All weights are zero."
  | invalidTotal => "the total of the weights is not finite"

section Uniform

variable {G : Type} [WordSource G]

/-- A number from zero up to one in steps of `2 ^ -53`. -/
def drawUnit {R : Type} [Number R] (source : G) : R × G :=
  let (bits, source) := nextLongWord source
  (((bits >>> 11).toNat : R) / ((Nat.pow 2 53 : Nat) : R), source)

/-- The largest low half of a product that is accepted when an index below `count` is drawn, so
that every index has the same number of accepted words. -/
def acceptedZone (count : Nat) : Nat :=
  count * Nat.pow 2 (31 - count.log2) - 1

/-- The index that a word stands for, unless the word is rejected.  It is the high half of the
product of the word and the number of indices. -/
def acceptedIndex? (last : Nat) (word : UInt32) : Option (Fin (last + 1)) :=
  let product := word.toNat * (last + 1)
  if product % Nat.pow 2 32 ≤ acceptedZone (last + 1) then
    some ⟨product / Nat.pow 2 32, Nat.div_lt_of_lt_mul
      (Nat.mul_lt_mul_of_pos_right word.toNat_lt (Nat.succ_pos last))⟩
  else none

/-- Reads a word, for the index that it stands for or, if it is rejected, for the source to go on
with. -/
def readIndex (last : Nat) (source : G) : G ⊕ (Fin (last + 1) × G) :=
  let (word, source) := WordSource.next source
  match acceptedIndex? last word with
  | some index => .inr (index, source)
  | none => .inl source

/-- Reads words until one is accepted.  On a stream of rejected words it would read on for ever, and
nothing is known of its value. -/
def drawIndex (last : Nat) (source : G) : Fin (last + 1) × G :=
  have : Nonempty (Fin (last + 1) × G) := ⟨⟨0, Nat.succ_pos last⟩, source⟩
  Id.run (repeatM (fun source => pure (readIndex last source)) source)

end Uniform

/-- An entry of a list, all being equally likely.  Nothing is drawn from an empty list. -/
def drawEntry {E G : Type} [RandomSource G] (entries : List E) (source : G) : Option E × G :=
  match entries with
  | [] => (none, source)
  | first :: rest =>
    let (index, source) := RandomSource.index rest.length source
    (some ((first :: rest).get index), source)

/-- Reads listed words until one is accepted, as the zero after them is at the latest. -/
def ListedWords.index (last : Nat) : List UInt32 → Fin (last + 1) × ListedWords
  | [] => (⟨0, Nat.succ_pos last⟩, ⟨[]⟩)
  | word :: rest =>
    match acceptedIndex? last word with
    | some index => (index, ⟨rest⟩)
    | none => index last rest

instance : RandomSource ListedWords where
  index last source := ListedWords.index last source.words

section Weighted

variable {S R : Type} [Number R]

/-- The sums of the weights up to each entry but the last, with the total of all. -/
def cumulate : R → List R → List R × R
  | total, [] => ([], total)
  | total, weight :: rest =>
    let (sums, final) := cumulate (total + weight) rest
    (total :: sums, final)

/-- The cumulated weights of all entries but the last, and the total, unless the weights cannot
be drawn from. -/
def cumulatedWeights (weights : List R) : Except DrawError (List R × R) :=
  match weights with
  | [] => .error .noEntries
  | first :: rest =>
    if weights.any fun weight => weight < 0 then .error .negativeWeight
    else
      let (sums, total) := cumulate first rest
      if Number.same total 0 then .error .zeroTotal
      else if Number.isFinite total then .ok (sums, total)
      else .error .invalidTotal

/-- The factor that takes the unit interval to the range below the total: the total itself, or
the number below it where the product with the largest share would reach the total. -/
def drawScale (total : R) : R :=
  if total ≤ total * (1 - 1 / ((Nat.pow 2 52 : Nat) : R)) then Number.nextBelow total else total

def drawShare {G : Type} [WordSource G] (total : R) (source : G) : R × G :=
  let (bits, source) := nextLongWord source
  (((bits >>> 12).toNat : R) / ((Nat.pow 2 52 : Nat) : R) * drawScale total + 0, source)

def drawState {G : Type} [WordSource G] [Ord S] (distribution : Distribution S R) (source : G) :
    Except DrawError S × G :=
  match cumulatedWeights distribution.values with
  | .error error => (.error error, source)
  | .ok (sums, total) =>
    let (share, source) := drawShare total source
    let index := (sums.filter fun sum => sum ≤ share).length
    match distribution.keys[index]? with
    | some state => (.ok state, source)
    | none => (.error .noEntries, source)

end Weighted

end MarkovDecision
