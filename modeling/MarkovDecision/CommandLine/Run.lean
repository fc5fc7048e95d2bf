import MarkovDecision.CommandLine.Arguments
import MarkovDecision.Learning.MonteCarlo
import MarkovDecision.Learning.QLearning
import MarkovDecision.Learning.ValueIteration
import MarkovDecision.LinearProgram.Components
import MarkovDecision.Model.Reading
import MarkovDecision.Random.ChaCha
import MarkovDecision.Scenario.Commute
import MarkovDecision.Scenario.FrozenLake
import MarkovDecision.Settings
import MarkovDecision.Text.Csv
import MarkovDecision.Guarantee

/-!
# Running a command

What a command prints and writes, as a value.  A run prints lines, may draw the unfolded model
into a file, and ends with a table or with a failure; what was printed and drawn before a failure
stays.  Files are given as functions: one that reads a file, and one that tells whether a file
can be written.
-/

namespace MarkovDecision

namespace CommandLine

inductive Failure where
  /-- A file is missing, or the directory of a file to be written. -/
  | missingFile
  /-- A file does not hold the expected JSON. -/
  | json (fault : Json.Fault)
  /-- A value of the command line is not understood. -/
  | argument (message : String)
  /-- A value of the command line is out of range. -/
  | parameter (parameter : Parameter) (value : Float)
  /-- The solver has no answer; the message tells why. -/
  | solver (message : String)
  deriving Repr

def Failure.message : Failure → String
  | missingFile => "I/O error: No such file or directory (os error 2)"
  | json _ => "JSON error"
  | argument message => "invalid argument: " ++ message
  | .parameter which value => which.rangeMessage value
  | solver message => message

/-- A cell of the table that a run ends with. -/
inductive Cell where
  | text (text : String)
  | number (value : Float)

def Cell.field : Cell → String
  | .text content => content
  | .number value => floatText value

structure Document where
  path : String
  content : String

/-- The table that a run ends with, and the file it goes to unless it is printed. -/
structure Table where
  rows : List (List Cell)
  path? : Option String

def Table.content (table : Table) : String :=
  Csv.text (table.rows.map fun row => row.map Cell.field)

structure Outcome where
  /-- What was printed before the table. -/
  printed : String
  /-- The drawing that was written. -/
  drawing? : Option Document
  ending : Except Failure Table

/-- The files that a run can see. -/
structure Files where
  read? : String → Option String
  canWrite : String → Bool

/-- What a run has printed and drawn so far. -/
structure Transcript where
  printed : String
  drawing? : Option Document

/-- A computation that prints, draws and may fail. -/
abbrev Script (T : Type) : Type :=
  ExceptT Failure (StateM Transcript) T

namespace Script

def printLine (line : String) : Script Unit :=
  modify fun transcript => { transcript with printed := transcript.printed ++ line ++ "\n" }

/-- Goes on with the value of a result, or fails. -/
def ofExcept {E T : Type} (failure : E → Failure) : Except E T → Script T
  | .ok value => pure value
  | .error error => throw (failure error)

/-- The outcome of a computation that ends with a table. -/
def outcome (script : Script Table) : Outcome :=
  let (ending, transcript) := script.run.run ⟨"", none⟩
  ⟨transcript.printed, transcript.drawing?, ending⟩

end Script

open Script

def parseArgument {T : Type} (read? : String → Option T) (name value : String) : Script T :=
  match read? value with
  | some value => pure value
  | none => throw (.argument ("could not parse " ++ name ++ " from " ++ quoted value))

/-- Reads a whole number below `2 ^ 64`. -/
def parseWhole (name value : String) : Script Nat :=
  parseArgument (readWhole? (Nat.pow 2 64)) name value

def parseFloat (name value : String) : Script Float :=
  parseArgument readFloat? name value

def readJson {T : Type} (files : Files) (reader : Json.Reader T) (path : String) : Script T :=
  match files.read? path with
  | none => throw .missingFile
  | some text => ofExcept .json (Json.readText reader text)

/-- The settings of a run: those of the configuration file, or the defaults, with what the
command line says in their place. -/
def settings (files : Files) (invocation : Invocation) : Script SolverSettings := do
  let settings ← match invocation.value? "config" with
    | some path => readJson files SolverSettings.read path
    | none => pure SolverSettings.default
  let pruning ← match invocation.value? "pruning" with
    | some name => match Pruning.ofName? name with
      | some pruning => pure pruning
      | none => throw (.argument ("unknown pruning mode " ++ name))
    | none => pure settings.unfold.pruning
  let episodes ← match invocation.value? "episodes" with
    | some value => parseWhole "episodes" value
    | none => pure settings.learner.episodes
  let seed ← match invocation.value? "seed" with
    | some value => some <$> parseWhole "seed" value
    | none => pure settings.seed
  pure
    { unfold := { settings.unfold with pruning }
      learner := { settings.learner with episodes }
      seed := seed }

/-- A model with the state that runs start from, the state that they are to reach, and a way to
draw policies for it. -/
structure Problem (S A : Type) [Ord S] where
  model : Model S A Float
  start : S
  goal : S
  map? : Option (Policy S A → String)

section Commands

variable {S A : Type} [Ord S] [Ord A] [Label S] [Label A]

/-- A budget given as a cost becomes a bound on the value. -/
def budgetBound (cost : Float) : Script Float :=
  if cost < 0 || cost.isNaN then throw (.parameter .bound cost) else pure (-cost)

/-- The text of the action that a policy takes in a state. -/
def actionText (policy : Policy S A) (state : S) : String :=
  (policy[state]?.map Label.plain).getD ""

/-- A table of states with a number and an action each. -/
def stateTable (heading : String) (values : ValueTable S Float) (policy : Policy S A) :
    List (List Cell) :=
  [.text "state", .text heading, .text "action"] :: values.toList.map fun (state, value) =>
    [.text (Label.plain state), .number value, .text (actionText policy state)]

/-- Prints the map of a policy, where the problem has one. -/
def printMap (problem : Problem S A) (policy : Policy S A) : Script Unit :=
  match problem.map? with
  | some map => printLine (map policy)
  | none => pure ()

def runReach (problem : Problem S A) : Script (List (List Cell)) := do
  let (policy, values) ← ofExcept (fun error => .solver error.message)
    (problem.model.reachPolicy LinearProgram.solve (Std.TreeSet.ofList [problem.goal] compare))
  printLine ("probability of reaching " ++ Label.plain problem.goal ++ " from "
    ++ Label.plain problem.start ++ ": " ++ fixedText 6 (values.getD problem.start 0))
  pure (stateTable "probability" values policy)

/-- The message that tells why the percentile question of a run has no answer. -/
def guaranteeFailure (error : GuaranteeError S Float) : Failure :=
  .solver error.message

def drawUnfolding (files : Files) (path : String) (guarantee : Guarantee S A Float) :
    Script Unit :=
  if files.canWrite path then
    modify fun transcript =>
      { transcript with drawing? := some ⟨path, guarantee.unfolding.model.graphviz⟩ }
  else throw .missingFile

/-- How many simulated runs reached a target, failed and ran out of steps. -/
structure Tally where
  reached : Nat
  failed : Nat
  timedOut : Nat

def Tally.add (tally : Tally) : RunOutcome Float → Tally
  | .reached .. => { tally with reached := tally.reached + 1 }
  | .failed .. => { tally with failed := tally.failed + 1 }
  | .timedOut => { tally with timedOut := tally.timedOut + 1 }

def simulateRuns {G : Type} [WordSource G] (run : G → Except DrawError (RunOutcome Float) × G) :
    Nat → Tally → G → Except DrawError Tally
  | 0, tally, _ => .ok tally
  | count + 1, tally, source =>
    match run source with
    | (.ok outcome, source) => simulateRuns run count (tally.add outcome) source
    | (.error error, _) => .error error

/-- The number of steps after which a simulated run is given up. -/
def simulationLimit : Nat :=
  10000

def guaranteeTable (guarantee : Guarantee S A Float) : List (List Cell) :=
  [.text "state", .text "budget", .text "probability", .text "action"] ::
    guarantee.policy.toList.map fun (state, action) =>
      [ .text (match state with
          | .bottom => Label.plain state
          | .pair own _ => Label.plain own)
      , .text ((state.value?.map floatText).getD "")
      , .number (guarantee.values.getD state 0)
      , .text (match action with
          | .loop => Label.plain action
          | .take own => Label.plain own) ]

def runBudget (files : Files) (invocation : Invocation) (settings : SolverSettings)
    (source : Generator) (problem : Problem S A) : Script (List (List Cell)) := do
  let targets : LabelSet S := Std.TreeSet.ofList [problem.goal] compare
  let cost ← parseFloat "length" ((invocation.value? "length").getD "0")
  let bound ← budgetBound cost
  let threshold ← parseFloat "proba" ((invocation.value? "proba").getD "0")
  let guarantee ← ofExcept guaranteeFailure (Guarantee.answer problem.model LinearProgram.solve
    ⟨problem.start, targets, bound, threshold⟩ settings.unfold)
  printLine ("probability of reaching " ++ Label.plain problem.goal ++ " from "
    ++ Label.plain problem.start ++ " with cost at most " ++ floatText (-bound) ++ ": "
    ++ fixedText 6 guarantee.initialProbability)
  if let some path := invocation.value? "dot" then drawUnfolding files path guarantee
  let runs ← parseWhole "runs" ((invocation.value? "runs").getD "0")
  if 0 < runs then
    let tally ← ofExcept (fun error => .solver error.message) (simulateRuns
      (guarantee.simulate problem.model problem.start targets simulationLimit) runs ⟨0, 0, 0⟩
      source)
    printLine ("runs: " ++ toString tally.reached ++ " reached, " ++ toString tally.failed
      ++ " failed, " ++ toString tally.timedOut ++ " timed out")
  printMap problem guarantee.projectedPolicy
  pure (guaranteeTable guarantee)

/-- The largest value of the actions of each state that has any. -/
def bestValues (values : ActionValues S A Float) : ValueTable S Float :=
  (values.filter fun _ actions => !actions.isEmpty).map fun _ actions =>
    (Number.largest? actions.values).getD 0

def reportLearned (problem : Problem S A) (result : Except DrawError (Learned S A Float)) :
    Script (List (List Cell)) := do
  let learned ← ofExcept (fun error => .solver error.message) result
  printLine (toString (learned.episodes.filter (·.truncated)).length ++ " of "
    ++ toString learned.episodes.length ++ " episodes truncated")
  printMap problem learned.policy
  pure (stateTable "value" (bestValues learned.values) learned.policy)

def runLearn (invocation : Invocation) (settings : SolverSettings) (source : Generator)
    (problem : Problem S A) : Script (List (List Cell)) := do
  let learner := settings.learner
  let environment : Environment S A Float := ⟨problem.model, problem.start, problem.goal⟩
  match (invocation.value? "algo").getD "vi" with
  | "vi" =>
    let (values, policy) := problem.model.valueIteration learner.discount learner.episodes
    printMap problem policy
    pure (stateTable "value" values policy)
  | "q" => reportLearned problem (qLearn environment learner source).1
  | "mc" => reportLearned problem (monteCarlo environment learner source).1
  | other => throw (.argument ("unknown algorithm " ++ other))

def runCommand (files : Files) (invocation : Invocation) (settings : SolverSettings)
    (source : Generator) (problem : Problem S A) : Script Table := do
  let rows ← match invocation.command with
    | .reach => runReach problem
    | .sspp => runBudget files invocation settings source problem
    | .learn => runLearn invocation settings source problem
  let path? := invocation.value? "out"
  if path?.all files.canWrite then pure ⟨rows, path?⟩ else throw .missingFile

end Commands

def describedProblem (description : Description String String Float) :
    Script (Problem String String) := do
  let model ← ofExcept (fun error => .solver (error.configurationMessage)) description.model
  pure ⟨model, description.start, description.goal, none⟩

def lakeProblem (lake : FrozenLake) : Problem Nat Move :=
  ⟨lake.model, FrozenLake.start, lake.goal, some lake.render⟩

/-- Runs an invocation.  `entropy` is the seed where none is given. -/
def act (files : Files) (entropy : UInt64) (invocation : Invocation) : Script Table := do
  let settings ← settings files invocation
  let source := Generator.ofSeed ((settings.seed.map Nat.toUInt64).getD entropy)
  match invocation.value? "mpath", (invocation.value? "env").getD "commute" with
  | some path, _ =>
    let description ← readJson files Description.read path
    runCommand files invocation settings source (← describedProblem description)
  | none, "commute" =>
    runCommand files invocation settings source (← describedProblem Commute.description)
  | none, "frozenlake4" =>
    runCommand files invocation settings source (lakeProblem FrozenLake.small)
  | none, "frozenlake8" =>
    runCommand files invocation settings source (lakeProblem FrozenLake.large)
  | none, other => throw (.argument ("unknown environment " ++ other))

/-- Runs a command line, unless it asks for help or cannot be understood. -/
def run (files : Files) (entropy : UInt64) (arguments : List String) : Except Halt Outcome :=
  (readArguments arguments).map fun invocation => (act files entropy invocation).outcome

end CommandLine

end MarkovDecision
