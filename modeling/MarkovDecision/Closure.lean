import Std.Data.TreeSet

/-!
# Closures

The least set that holds some seeds and, with each of its members, the neighbours of that member.
It is grown round by round, each round looking at the neighbours of what the round before found,
until a round finds nothing new.
-/

namespace MarkovDecision

abbrev LabelSet (S : Type) [Ord S] : Type :=
  Std.TreeSet S

variable {S : Type} [Ord S]

/-- Puts a label into a set and, if it is new there, in front of a list. -/
def discover (found : LabelSet S × List S) (state : S) : LabelSet S × List S :=
  if found.1.contains state then found else (found.1.insert state, state :: found.2)

/-- Grows a set by the neighbours of its newest members, and theirs in turn, for at most the
given number of rounds. -/
def grow (neighbours : S → List S) : Nat → LabelSet S → List S → LabelSet S
  | 0, seen, _ => seen
  | rounds + 1, seen, newest =>
    let (seen, found) := (newest.flatMap neighbours).foldl discover (seen, [])
    if found.isEmpty then seen else grow neighbours rounds seen found

/-- The least set that holds the seeds and the neighbours of its members, provided that walks
meet at most `bound` states besides the seeds. -/
def closure (neighbours : S → List S) (bound : Nat) (seeds : List S) : LabelSet S :=
  let (seen, found) := seeds.foldl discover (∅, [])
  grow neighbours bound seen found

end MarkovDecision
