import MarkovDecision.CommandLine.Run

/-!
# The command line

Reads the files that the arguments name, runs the command, and prints and writes what it answers.
-/

namespace MarkovDecision

namespace CommandLine

/-- The text shown where help is asked for or the arguments do not make sense. -/
def helpText : String :=
  String.join
    [ "Reachability, percentile shortest path and expected reward policies for MDPs\n\n"
    , "usage: sspp [SWITCHES] reach|sspp|learn [SWITCHES]\n\n"
    , "general:  -v, -c/--config PATH, --mpath PATH, --env NAME, -o/--out PATH\n"
    , "sspp:     -l/--length COST, -p/--proba P, --pruning MODE, --dot PATH, --runs N, --seed N\n"
    , "learn:    -a/--algo vi|q|mc, -e/--episodes N, --seed N\n" ]

/-- The content of a file, if it can be read. -/
def readFile? (path : String) : IO (Option String) := do
  try return some (← IO.FS.readFile path) catch _ => return none

def directory (path : String) : String :=
  let reversed := path.toList.reverse.dropWhile (· != '/')
  if reversed.isEmpty then "." else String.ofList reversed.reverse

def hasDirectory (path : String) : IO Bool := do
  try
    let resolved ← IO.FS.realPath (directory path)
    return (← resolved.isDir) && !path.isEmpty
  catch _ => return false

def gatherFiles (invocation : Invocation) : IO Files := do
  let inputs := ["config", "mpath"].filterMap invocation.value?
  let contents ← inputs.filterMapM fun path => do
    return (← readFile? path).map fun content => (path, content)
  let outputs := ["dot", "out"].filterMap invocation.value?
  let writable ← outputs.filterM hasDirectory
  return ⟨fun path => contents.lookup path, writable.contains⟩

def entropySeed : IO UInt64 := do
  let bytes ← IO.getRandomBytes 8
  return bytes.foldl (fun seed byte => seed * 256 + byte.toUInt64) 0

/-- Prints and writes an outcome, and returns the exit code. -/
def deliver (outcome : Outcome) : IO UInt32 := do
  let stdout ← IO.getStdout
  stdout.putStr outcome.printed
  if let some drawing := outcome.drawing? then IO.FS.writeFile drawing.path drawing.content
  match outcome.ending with
  | .ok table =>
    match table.path? with
    | some path => IO.FS.writeFile path table.content
    | none => stdout.putStr table.content
    return 0
  | .error failure =>
    IO.eprintln failure.message
    return 1

end CommandLine

end MarkovDecision

open MarkovDecision CommandLine in
def main (arguments : List String) : IO UInt32 := do
  match readArguments arguments with
  | .error .help =>
    IO.print helpText
    return 0
  | .error .usage =>
    IO.eprint helpText
    return 1
  | .ok invocation =>
    let files ← gatherFiles invocation
    deliver (act files (← entropySeed) invocation).outcome
