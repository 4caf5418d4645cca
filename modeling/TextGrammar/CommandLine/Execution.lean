import TextGrammar.CommandLine.Request
import TextGrammar.Expansion.Engine
import TextGrammar.Grammar.Load
import TextGrammar.Graph
import TextGrammar.Random.Twister
import TextGrammar.Settings

/-!
# Execution of Requests

What the program prints for a command line, given the environment and the files
that it can read.

All runs of one command share an engine, and with it the source of draws, but
each starts from a namespace of its own. What was printed before a failure
stays printed.

Runs go as deep as their limit, or to a fixed depth without one. The room that an
interpreter has for nested calls is left out here, as it is in `Engine.run`.

## Main definitions

* `World`: The environment variables, the files, and a seed for draws that
  need not be foreseen.
* `Failure`: Why a command line did not do all of its work.
* `Outcome`: What was printed, and the failure behind it if there is one.
* `Outcome.code`, `Outcome.errors`: The exit code, and the text on the error channel.
* `CommandLine.execute`: The outcome of a command line.
-/

namespace TextGrammar

namespace CommandLine

/-- What the program can see of its surroundings. -/
structure World where
  environment : List (String × String)
  files : Entries String
  entropy : Int

/-- Why a command fails. -/
inductive CommandError where
  | environment (problems : List Problem)
  | settings (problems : List Problem)
  | assignment (text : String)
  | load (e : LoadError)
  | expansion (e : ExpansionError)

/-- The text of the error. -/
def CommandError.message (describe : List Problem → String) : CommandError → String
  | .environment problems => "Invalid TAGWEAVE_* environment: " ++ describe problems
  | .settings problems => describe problems
  | .assignment text => "Expected KEY=VALUE, got '" ++ text ++ "'"
  | .load e => e.message describe
  | .expansion e => e.message

/-- The parts of a path between slashes, without those that stand for nothing. -/
def pathParts (cs : List Char) : List (List Char) :=
  (cs.splitOn '/').filter fun part => part != [] && part != ['.']

/-- A path in its plain form: no doubled slashes, and no dots for the place where
    one is. -/
def plainPath (path : String) : String :=
  let cs := path.toList
  let joined := (['/'] : List Char).intercalate (pathParts cs)
  match cs with
  | '/' :: _ => String.ofList ('/' :: joined)
  | _ => if joined.isEmpty then "." else String.ofList joined

/-- The paths at which a grammar is looked for, in order. -/
def candidatePaths (target : String) : List String :=
  [plainPath target, plainPath (target ++ ".grammar")]

/-- The path and the text of a grammar. -/
def findGrammar? (files : Entries String) (target : String) : Option (String × String) :=
  (candidatePaths target).findSome? fun path => (files.find? path).map fun text => (path, text)

/-- The text with every line break of another system as a line feed. -/
def unifyLineBreaks : List Char → List Char
  -- The pair is one break, so it comes before the single carriage return.
  | '\r' :: '\n' :: rest => '\n' :: unifyLineBreaks rest
  | '\r' :: rest => '\n' :: unifyLineBreaks rest
  | c :: rest => c :: unifyLineBreaks rest
  | [] => []

/-- The rules of a grammar file. -/
def loadFile (path text : String) : Except CommandError RuleSet :=
  match Grammar.load (String.ofList (unifyLineBreaks text.toList)) (some path) RuleSet.empty with
  | (.ok _, rules) => .ok rules
  | (.error e, _) => .error (.load e)

/-- An assignment as a key and a datum: a number if the value can be read as one. -/
def readAssignment? (text : String) : Option (String × Datum) :=
  match cutAtEquals text.toList with
  | (c :: cs, some rest) =>
    let key := String.ofList (c :: cs)
    let value := String.ofList rest
    -- Anything that reads as a number is one, a word such as `nan` included.
    match Numeral.read? value with
    | some x => some (key, .number x)
    | none => some (key, .text value)
  | _ => none

/-- The namespace that assignments describe. -/
def initialData : List String → Namespace → Except CommandError Namespace
  | [], ns => .ok ns
  | text :: rest, ns =>
    match readAssignment? text with
    | none => .error (.assignment text)
    | some (key, d) => initialData rest (ns.put key d)

/-- The settings from the environment with those of the command line in their
    place. A depth limit of zero switches it off. -/
def settingsFor (world : World) (r : RunRequest) : Except CommandError Settings :=
  match (SettingValues.ofEnvironment world.environment).check with
  | .error problems => .error (.environment problems)
  | .ok fromEnvironment =>
    let values := SettingValues.ofSettings fromEnvironment
    let values := match r.maxDepth with
      | none => values
      | some i => { values with
          maxDepth := some (if i = 0 then .null else .number (.whole i)) }
    let values := match r.seed with
      | none => values
      | some i => { values with seed := some (.number (.whole i)) }
    -- The values of the command line have not been checked yet.
    match values.check with
    | .error problems => .error (.settings problems)
    | .ok settings => .ok settings

/-- What one run prints, and the engine after it. -/
def runOnce (rules : RuleSet) (r : RunRequest) (engine : Engine Twister) :
    Except CommandError String × Engine Twister :=
  -- Each run starts from the assignments alone, not from what another has left.
  match initialData r.assignments Namespace.empty with
  | .error e => (.error e, engine)
  | .ok data =>
    match engine.run rules ⟨data, []⟩ ⟨Tag.parse r.root, [], []⟩ with
    | (.error e, _, engine) => (.error (.expansion e), engine)
    | (.ok text, scene, engine) =>
      (.ok (text ++ "\n" ++ if r.showData then scene.data.layOut "  " else ""), engine)

/-- What a number of runs print, and the error that ended them, if one did. -/
def runMany (rules : RuleSet) (r : RunRequest) :
    Nat → Engine Twister → List String × Option CommandError
  | 0, _ => ([], none)
  | n + 1, engine =>
    match runOnce rules r engine with
    -- What the runs before have printed stays, and this one prints nothing.
    | (.error e, _) => ([], some e)
    | (.ok block, engine) =>
      let (blocks, failure) := runMany rules r n engine
      (block :: blocks, failure)

/-- What the command `run` prints, and the error that ended it, if one did. -/
def performRun (world : World) (path text : String) (r : RunRequest) :
    List String × Option CommandError :=
  match settingsFor world r with
  | .error e => ([], some e)
  | .ok settings =>
    match loadFile path text with
    | .error e => ([], some e)
    | .ok rules =>
      runMany rules r r.count.toNat
        { maxDepth := settings.maxDepth
          source := Twister.ofSeed (settings.seed.getD world.entropy) }

/-- A line of a report: a title and the tags under it. -/
def reportLine (title : String) (tags : List Tag) : String :=
  title ++ ": " ++ (if tags.isEmpty then "-" else ", ".intercalate (sortedTexts tags)) ++ "\n"

/-- What the command `check` prints, and the error that ended it, if one did. -/
def performCheck (path text root : String) : List String × Option CommandError :=
  match loadFile path text with
  | .error e => ([], some e)
  | .ok rules =>
    let g := Graph.ofRules rules
    ([reportLine "undefined" g.undefined, reportLine "unreachable" (g.unreachable (Tag.parse root)),
      reportLine "recursive" g.recursive], none)

/-- A short reminder of how the program is called. -/
def usage : String := "usage: weave [-h] [-v] \x7brun,check\x7d ...\n"

/-- Why a command line did not do all of its work: the arguments are mistaken or
    name no command, the grammar is not there, or the command failed. -/
inductive Failure where
  | mistake
  | noCommand
  | noGrammar (target : String)
  | command (e : CommandError)

/-- What was printed, and why nothing more was, unless all went well. -/
structure Outcome where
  output : String := ""
  failure : Option Failure := none

namespace Outcome

/-- The exit code: two for mistaken arguments, and one for every other failure. -/
def code (o : Outcome) : Nat :=
  match o.failure with
  | none => 0
  | some .mistake => 2
  | some _ => 1

/-- The text on the error channel. How problems of values are worded is left open. -/
def errors (describe : List Problem → String) (o : Outcome) : String :=
  match o.failure with
  | none | some .noCommand => ""
  | some .mistake => usage
  | some (.noGrammar target) => "Error: Could not find grammar file for '" ++ target ++ "'\n"
  | some (.command e) => "[Error] " ++ e.message describe ++ "\n"

end Outcome

/-- The outcome of a command on a grammar, which has to be found first. What the
    command gives is the blocks that it prints, and the error that ended it. -/
def onGrammar (world : World) (target : String)
    (perform : String → String → List String × Option CommandError) : Outcome :=
  match findGrammar? world.files target with
  | none => { failure := some (.noGrammar target) }
  | some (path, text) =>
    let (blocks, error) := perform path text
    { output := "".intercalate blocks, failure := error.map .command }

/-- The outcome of a request. -/
def answer (world : World) : Request → Outcome
  | .help => { output := usage }
  | .mistake => { failure := some .mistake }
  | .nothing => { output := usage, failure := some .noCommand }
  | .run r => onGrammar world r.target fun path text => performRun world path text r
  | .check target root => onGrammar world target fun path text => performCheck path text root

/-- The outcome of a command line. -/
def execute (world : World) (args : List String) : Outcome :=
  answer world (Request.ofArguments args)

end CommandLine

end TextGrammar
