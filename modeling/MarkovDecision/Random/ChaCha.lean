import MarkovDecision.Random.Draw

/-!
# The ChaCha key stream

ChaCha turns a key of eight words and a block counter into a block of sixteen words: the words of
the start state are mixed in twenty rounds and added to the start state again.  The stream is the
concatenation of the blocks from counter zero on.
-/

namespace MarkovDecision

/-- The state of sixteen words that the rounds mix. -/
structure ChaChaState where
  words : Array UInt32

namespace ChaChaState

def word (state : ChaChaState) (position : Nat) : UInt32 :=
  state.words.getD position 0

/-- Turns a word to the left by a number of bits. -/
def rotateLeft (word count : UInt32) : UInt32 :=
  word <<< count ||| word >>> (32 - count)

/-- Adds one word to another and mixes the sum into a third, turned by a number of bits. -/
def mix (state : ChaChaState) (sum addend mixed : Nat) (count : UInt32) : ChaChaState :=
  let total := state.word sum + state.word addend
  let turned := rotateLeft (state.word mixed ^^^ total) count
  ⟨(state.words.setIfInBounds sum total).setIfInBounds mixed turned⟩

def quarterRound (state : ChaChaState) (a b c d : Nat) : ChaChaState :=
  (((state.mix a b d 16).mix c d b 12).mix a b d 8).mix c d b 7

/-- A round on the columns of the four by four square of words, and one on its diagonals. -/
def doubleRound (state : ChaChaState) : ChaChaState :=
  let columns := (((state.quarterRound 0 4 8 12).quarterRound 1 5 9 13).quarterRound 2 6 10 14)
    |>.quarterRound 3 7 11 15
  (((columns.quarterRound 0 5 10 15).quarterRound 1 6 11 12).quarterRound 2 7 8 13)
    |>.quarterRound 3 4 9 14

/-- The start state: four fixed words, the key, the counter and a zero nonce. -/
def start (key : List UInt32) (counter : UInt64) : ChaChaState :=
  let fixed : List UInt32 := [0x61707865, 0x3320646e, 0x79622d32, 0x6b206574]
  ⟨(fixed ++ key ++ [counter.toUInt32, (counter >>> 32).toUInt32, 0, 0]).toArray⟩

end ChaChaState

/-- The block of sixteen words for a key and a counter. -/
def chaChaBlock (key : List UInt32) (counter : UInt64) : List UInt32 :=
  let start := ChaChaState.start key counter
  let mixed := Nat.repeat ChaChaState.doubleRound 10 start
  (mixed.words.zipWith (· + ·) start.words).toList

/-- A key stream: the words left of the current block, and the counter of the next one. -/
structure KeyStream where
  key : List UInt32
  counter : UInt64
  pending : List UInt32

instance : WordSource KeyStream where
  next stream :=
    match stream.pending with
    | word :: rest => (word, { stream with pending := rest })
    | [] =>
      let block := chaChaBlock stream.key stream.counter
      (block.headD 0, { stream with counter := stream.counter + 1, pending := block.tail })

instance : RandomSource KeyStream where
  index := drawIndex

namespace KeyStream

/-- The step of the linear congruential sequence that spreads a seed over a key. -/
def spread (state : UInt64) : UInt64 :=
  state * 6364136223846793005 + 11634580027462260723

/-- The output of the sequence: bits of the state folded together and turned to the right by its
highest bits. -/
def spreadWord (state : UInt64) : UInt32 :=
  let folded := (((state >>> 18) ^^^ state) >>> 27).toUInt32
  let count := (state >>> 59).toUInt32
  folded >>> count ||| folded <<< ((32 - count) % 32)

/-- The words of the key that a seed stands for. -/
def keyWords : Nat → UInt64 → List UInt32
  | 0, _ => []
  | count + 1, state =>
    let state := spread state
    spreadWord state :: keyWords count state

def ofSeed (seed : UInt64) : KeyStream :=
  ⟨keyWords 8 seed, 0, []⟩

end KeyStream

/-- The sources that a run may draw from: listed words or the key stream of a seed. -/
inductive Generator where
  | listed (source : ListedWords)
  | seeded (stream : KeyStream)

namespace Generator

def ofWords (words : List UInt32) : Generator :=
  listed ⟨words⟩

def ofSeed (seed : UInt64) : Generator :=
  seeded (KeyStream.ofSeed seed)

end Generator

instance : WordSource Generator where
  next
    | .listed source =>
      let (word, source) := WordSource.next source
      (word, .listed source)
    | .seeded stream =>
      let (word, stream) := WordSource.next stream
      (word, .seeded stream)

instance : RandomSource Generator where
  index last
    | .listed source =>
      let (index, source) := RandomSource.index last source
      (index, .listed source)
    | .seeded stream =>
      let (index, stream) := RandomSource.index last stream
      (index, .seeded stream)

end MarkovDecision
