/-!
# Sources of random words

Everything random is computed from a stream of 32-bit words.  A source of words is any type whose
values give a word and the source of the words after it; statements about random programs then
hold for every stream.

A learner also draws indices of equally likely entries.  How many words such a draw takes is left
to the source: it may read words until it accepts one, so that on some streams it would read on
for ever.  A random source is one whose index draws come to an end.
-/

namespace MarkovDecision

/-- A type of streams of 32-bit words. -/
class WordSource (G : Type) where
  /-- The first word, and the stream that follows it. -/
  next : G → UInt32 × G

/-- A source of words whose index draws come to an end. -/
class RandomSource (G : Type) extends WordSource G where
  /-- An index from zero up to the given last one, and the stream that follows the words read. -/
  index (last : Nat) : G → Fin (last + 1) × G

/-- A stream that begins with listed words and goes on with zeros. -/
structure ListedWords where
  words : List UInt32

instance : WordSource ListedWords where
  next source :=
    match source.words with
    | [] => (0, source)
    | word :: rest => (word, ⟨rest⟩)

/-- A 64-bit word is made of two words, the low half first. -/
def nextLongWord {G : Type} [WordSource G] (source : G) : UInt64 × G :=
  let (low, source) := WordSource.next source
  let (high, source) := WordSource.next source
  (low.toUInt64 ||| high.toUInt64 <<< 32, source)

end MarkovDecision
