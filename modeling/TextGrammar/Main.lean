import TextGrammar.CommandLine.Execution

/-!
# The Program

The program around `CommandLine.execute`: it reads the environment variables and
the files that a request may need, and prints the outcome.

## Main definitions

* `main`: The entry point.
-/

namespace TextGrammar

namespace Main

/-- Problems as the program words them. -/
def describe (problems : List Problem) : String :=
  toString (Problem.summary problems).length ++ " invalid: " ++
    ", ".intercalate (Problem.summary problems)

/-- The environment variables that are set among those that settings come from. -/
def readVariables : IO (List (String × String)) := do
  let names := [SettingValues.maxDepthVariable, SettingValues.seedVariable]
  let values ← names.mapM fun name => do return (name, ← IO.getEnv name)
  return values.filterMap fun (name, value) => value.map fun v => (name, v)

/-- The text of a file, if it can be read. -/
def readFile? (path : String) : IO (Option String) := do
  try
    return some (← IO.FS.readFile path)
  catch _ =>
    return none

/-- The files that a request may need. -/
def readFiles (request : CommandLine.Request) : IO (Entries String) := do
  let paths := match request with
    | .run r => CommandLine.candidatePaths r.target
    | .check target _ => CommandLine.candidatePaths target
    | _ => []
  let texts ← paths.mapM fun path => do return (path, ← readFile? path)
  return texts.filterMap fun (path, text) => text.map fun t => (path, t)

end Main

end TextGrammar

open TextGrammar in
/-- Print the outcome of the command line, and exit with its code. -/
def main (args : List String) : IO UInt32 := do
  let request := CommandLine.Request.ofArguments args
  let world : CommandLine.World := {
    environment := ← Main.readVariables
    files := ← Main.readFiles request
    entropy := ← IO.rand 0 (Nat.pow 2 31 - 1) }
  let outcome := CommandLine.answer world request
  IO.print outcome.output
  IO.eprint (outcome.errors Main.describe)
  return UInt32.ofNat outcome.code
