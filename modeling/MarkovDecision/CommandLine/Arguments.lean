/-!
# Command-line arguments

A command line names a command, with general switches before or after it and the command's own
switches after it.  A switch has a long name behind two dashes and perhaps a short one behind a
single dash; its value follows it as the next argument, or in the same one, where a long name
needs an equals sign in between.  An argument that begins with a dash is no value of the switch
before it.  Short names can share a dash.

Asking for help ends the reading with `Halt.help`, and the first argument that does not fit ends
it with `Halt.usage`.
-/

namespace MarkovDecision

namespace CommandLine

inductive Halt where
  /-- Help or the version was asked for. -/
  | help
  /-- The arguments do not make sense. -/
  | usage
  deriving DecidableEq, Repr

structure Switch where
  name : String
  short? : Option Char
  takesValue : Bool
  /-- Whether the switch may be given more than once. -/
  repeatable : Bool

structure Given where
  name : String
  value? : Option String
  deriving DecidableEq, Repr

inductive Command where
  | reach
  | sspp
  | learn
  deriving DecidableEq, Repr

def Command.name : Command → String
  | reach => "reach"
  | sspp => "sspp"
  | learn => "learn"

def Command.all : List Command :=
  [.reach, .sspp, .learn]

def Command.ofName? (name : String) : Option Command :=
  Command.all.find? (·.name == name)

def valueSwitch (name : String) (short? : Option Char) : Switch :=
  ⟨name, short?, true, false⟩

def generalSwitches : List Switch :=
  [ ⟨"verbose", some 'v', false, true⟩
  , valueSwitch "config" (some 'c')
  , valueSwitch "mpath" none
  , valueSwitch "env" none
  , valueSwitch "out" (some 'o') ]

def Command.ownSwitches : Command → List Switch
  | reach => []
  | sspp =>
    [ valueSwitch "length" (some 'l')
    , valueSwitch "proba" (some 'p')
    , valueSwitch "pruning" none
    , valueSwitch "dot" none
    , valueSwitch "runs" none
    , valueSwitch "seed" none ]
  | learn =>
    [ valueSwitch "algo" (some 'a')
    , valueSwitch "episodes" (some 'e')
    , valueSwitch "seed" none ]

/-- What one argument contributes: a switch, and whether its value is still to come. -/
structure Reading where
  given : List Given
  pending? : Option String

section Switches

/-- Drops equals signs from the front of a value that shares an argument with its switch. -/
def attachedValue (chars : List Char) : String :=
  String.ofList (chars.dropWhile (· == '='))

def readLong (switches : List Switch) (argument : List Char) : Except Halt Reading :=
  let body := argument.dropWhile (· == '-')
  let name := String.ofList (body.takeWhile (· != '='))
  let value? := match body.dropWhile (· != '=') with
    | [] => none
    | _ :: value => some (attachedValue value)
  match switches.find? (·.name == name) with
  | some switch =>
    if !switch.takesValue then .ok ⟨[⟨name, none⟩], none⟩
    else
      match value? with
      | some value => .ok ⟨[⟨name, some value⟩], none⟩
      | none => .ok ⟨[], some name⟩
  | none => .error (if name = "help" ∨ name = "version" then .help else .usage)

/-- Reads short names that share a dash.  One that takes a value takes the rest of the
argument, if there is any. -/
def readShort (switches : List Switch) : List Char → List Given → Except Halt Reading
  | [], given => .ok ⟨given, none⟩
  | c :: rest, given =>
    match switches.find? (·.short? == some c) with
    | some switch =>
      if !switch.takesValue then readShort switches rest (given ++ [⟨switch.name, none⟩])
      else if rest.isEmpty then .ok ⟨given, some switch.name⟩
      else .ok ⟨given ++ [⟨switch.name, some (attachedValue rest)⟩], none⟩
    | none => .error (if c = 'h' ∨ c = 'V' then .help else .usage)

def readSwitch (switches : List Switch) (argument : List Char) : Except Halt Reading :=
  if ['-', '-'].isPrefixOf argument then readLong switches argument
  else readShort switches (argument.dropWhile (· == '-')) []

/-- Whether an argument is a switch and not a value; a lone dash is a value. -/
def isSwitch (argument : String) : Bool :=
  argument.toList.head? == some '-' && argument != "-"

/-- What the arguments up to a command hold: the switches, and the command with the arguments
behind it. -/
structure Scan where
  given : List Given
  rest? : Option (String × List String)

/-- Reads switches up to the first argument that names a command.  `pending?` is the switch that
still lacks its value. -/
def scan (switches : List Switch) (commands : List String) :
    List String → Option String → List Given → Except Halt Scan
  | [], pending?, given =>
    .ok ⟨given ++ (pending?.map fun name => ⟨name, none⟩).toList, none⟩
  | argument :: rest, pending?, given =>
    let unfinished := given ++ (pending?.map fun name => ⟨name, none⟩).toList
    if isSwitch argument then
      if argument = "--" then if rest.isEmpty then .ok ⟨unfinished, none⟩ else .error .usage
      else
        match readSwitch switches argument.toList with
        | .error halt => .error halt
        | .ok reading =>
          scan switches commands rest reading.pending? (unfinished ++ reading.given)
    else
      match pending? with
      | some name => scan switches commands rest none (given ++ [⟨name, some argument⟩])
      | none =>
        if commands.contains argument then .ok ⟨given, some (argument, rest)⟩ else .error .usage

/-- Whether every switch that takes a value has one, and no switch is given too often. -/
def isComplete (switches : List Switch) (given : List Given) : Bool :=
  switches.all fun switch =>
    let uses := given.filter (·.name == switch.name)
    (switch.repeatable || uses.length ≤ 1) &&
      (!switch.takesValue || uses.all (·.value?.isSome))

end Switches

/-- A command with the values of its switches. -/
structure Invocation where
  command : Command
  given : List Given

namespace Invocation

def value? (invocation : Invocation) (name : String) : Option String :=
  (invocation.given.find? (·.name == name)).bind (·.value?)

end Invocation

/-- Reads what follows `help`: the name of a command, or nothing. -/
def readHelp : List String → Halt
  | [] => .help
  | [name] => if name = "help" ∨ (Command.ofName? name).isSome then .help else .usage
  | _ => .usage

/-- Reads the arguments behind a command.  A general switch behind the command goes before the
same switch in front of it. -/
def readCommand (command : Command) (before : List Given) (arguments : List String) :
    Except Halt Invocation := do
  let switches := command.ownSwitches ++ generalSwitches
  let behind ← scan switches [] arguments none []
  let hasLength := command != .sspp || behind.given.any (·.name == "length")
  if isComplete switches behind.given && hasLength && isComplete generalSwitches before then
    .ok ⟨command, behind.given ++ before⟩
  else .error .usage

def readArguments (arguments : List String) : Except Halt Invocation := do
  let front ← scan generalSwitches ("help" :: Command.all.map (·.name)) arguments none []
  match front.rest? with
  | none => .error .usage
  | some (name, rest) =>
    match Command.ofName? name with
    | some command => readCommand command front.given rest
    | none => .error (readHelp rest)

end CommandLine

end MarkovDecision
