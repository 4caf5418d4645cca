import TextGrammar.CommandLine.Options

/-!
# Requests

What a command line asks for.

There are two commands. `run` generates text and `check` reports on a grammar;
both take the name of a grammar. Arguments are acted on in their order, so help
is given if it is asked for in front of a mistake, and not if it comes behind
one. An argument that nothing takes is a mistake only at the very end.

## Main definitions

* `RunRequest`: What the command `run` was given.
* `Request`: What is asked for.
* `Request.ofArguments`: What the arguments of the program ask for.
-/

namespace TextGrammar

namespace CommandLine

/-- What the command `run` was given. -/
structure RunRequest where
  target : String := ""
  root : String := "root"
  assignments : List String := []
  seed : Option Int := none
  count : Int := 1
  maxDepth : Option Int := none
  showData : Bool := false
deriving DecidableEq

/-- What is asked for. -/
inductive Request where
  | help
  | mistake
  | nothing
  | run (r : RunRequest)
  | check (target root : String)
deriving DecidableEq

/-- The option that asks for help, which every command has. -/
def helpOption : OptionSpec := ⟨["-h", "--help"], .help⟩

/-- The options in front of a command. -/
def programOptions : List OptionSpec := [helpOption, ⟨["-v", "--verbose"], .verbose⟩]

/-- The options of the command `run`. -/
def runOptions : List OptionSpec :=
  [helpOption, ⟨["--root"], .root⟩, ⟨["--set"], .assignment⟩, ⟨["--seed"], .seed⟩,
    ⟨["--count"], .count⟩, ⟨["--max-depth"], .maxDepth⟩, ⟨["--show-data"], .showData⟩]

/-- The options of the command `check`. -/
def checkOptions : List OptionSpec := [helpOption, ⟨["--root"], .root⟩]

/-- How the reading of a command's arguments ends: with the positional argument, if
    there was one, and whether there were arguments that nothing takes. -/
structure Ending where
  target : Option String
  leftOver : Bool

/-- The uses of options in order, and the ending, which is missing if the reading
    broke off. A double dash goes with the positional argument next to it. -/
def scan (specs : List OptionSpec) : Ending → List (String × ArgumentKind) →
    List OptionUse × Option Ending
  | e, [] => ([], some e)
  | ⟨none, leftOver⟩, (arg, .plain) :: (_, .dashes) :: rest => scan specs ⟨some arg, leftOver⟩ rest
  | ⟨none, leftOver⟩, (arg, .plain) :: rest => scan specs ⟨some arg, leftOver⟩ rest
  | ⟨some target, _⟩, (_, .plain) :: rest => scan specs ⟨some target, true⟩ rest
  | ⟨none, leftOver⟩, (_, .dashes) :: (arg, _) :: rest => scan specs ⟨some arg, leftOver⟩ rest
  | ⟨target, _⟩, (_, .dashes) :: rest => scan specs ⟨target, true⟩ rest
  | ⟨target, _⟩, (_, .unknown) :: rest => scan specs ⟨target, true⟩ rest
  | e, (_, .known m) :: rest =>
    match Recognised.ofMatch? specs m with
    | none => ([], none)
    | some r =>
      match r.waiting, rest with
      | none, rest =>
        let (more, ending) := scan specs e rest
        (r.uses ++ more, ending)
      | some role, (value, .plain) :: rest =>
        let (more, ending) := scan specs e rest
        (r.uses ++ ⟨role, value⟩ :: more, ending)
      | some _, _ => ([], none)

/-- What a use of an option makes of the request so far. A request for help and a
    value that does not fit end the reading. -/
def OptionUse.actOn (use : OptionUse) (r : RunRequest) : Except Request RunRequest :=
  let integer (f : Int → RunRequest) : Except Request RunRequest :=
    match readInteger? use.value with
    | some i => .ok (f i)
    | none => .error .mistake
  match use.role with
  | .help => .error .help
  | .verbose => .ok r
  | .root => .ok { r with root := use.value }
  | .assignment => .ok { r with assignments := r.assignments ++ [use.value] }
  | .seed => integer fun i => { r with seed := some i }
  | .count => integer fun i => { r with count := i }
  | .maxDepth => integer fun i => { r with maxDepth := some i }
  | .showData => .ok { r with showData := true }

/-- What the arguments of a command ask for, put together as the command needs. -/
def ofCommand (specs : List OptionSpec) (make : RunRequest → Request) (args : List String) :
    Request :=
  match ArgumentKind.classify specs args with
  | none => .mistake
  | some kinds =>
    let (uses, ending) := scan specs ⟨none, false⟩ kinds
    match uses.foldlM (fun r use => use.actOn r) {}, ending with
    | .error request, _ => request
    | .ok r, some ⟨some target, false⟩ => make { r with target := target }
    | .ok _, _ => .mistake

/-- What a command asks for, given its name and arguments. -/
def ofNamedCommand (name : String) (args : List String) : Request :=
  if name == "run" then ofCommand runOptions .run args
  else if name == "check" then ofCommand checkOptions (fun r => .check r.target r.root) args
  else .mistake

/-- What the arguments ask for from some place on. The flag holds if there was an
    option in front that the program does not know. -/
def fromProgram : Bool → List (String × ArgumentKind) → Request
  | unknown, [] => if unknown then .mistake else .nothing
  | unknown, (name, .plain) :: rest =>
    match ofNamedCommand name (rest.map Prod.fst) with
    | .help => .help
    -- What the program left over counts only now, behind the command's own mistakes.
    | request => if unknown then .mistake else request
  | _, (_, .dashes) :: _ => .mistake
  | _, (_, .unknown) :: rest => fromProgram true rest
  | unknown, (_, .known m) :: rest =>
    match Recognised.ofMatch? programOptions m with
    | none => .mistake
    | some r =>
      if r.uses.any fun use => use.role == .help then .help else fromProgram unknown rest

/-- What the arguments of the program ask for. -/
def Request.ofArguments (args : List String) : Request :=
  match ArgumentKind.classify programOptions args with
  | none => .mistake
  | some kinds => fromProgram false kinds

end CommandLine

end TextGrammar
