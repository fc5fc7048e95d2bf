import MarkovDecision.Json.Reader
import MarkovDecision.Model.Tables

/-!
# Reading models

A model is written in JSON as its two tables, the start and the goal.  Every field must be there.
-/

namespace MarkovDecision

namespace Description

def readNumbers : Json.Reader (Std.TreeMap String Float) := fun chars => do
  let (entries, rest) ← Json.readTable Json.readFloat chars
  .ok (Std.TreeMap.ofList entries, rest)

def readTables : Json.Reader (Std.TreeMap String (Std.TreeMap String Float)) := fun chars => do
  let (entries, rest) ← Json.readTable readNumbers chars
  .ok (Std.TreeMap.ofList entries, rest)

def read : Json.Reader (Description String String Float) :=
  Json.readRecord
    [ Json.field "state_actions" readTables fun description costs => { description with costs }
    , Json.field "action_states" readTables fun description distributions =>
        { description with distributions }
    , Json.field "start" Json.readString fun description start => { description with start }
    , Json.field "end" Json.readString fun description goal => { description with goal } ]
    .refused ⟨∅, ∅, "", ""⟩

end Description

end MarkovDecision
