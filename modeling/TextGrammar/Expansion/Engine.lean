import TextGrammar.Expansion.Candidates
import TextGrammar.Random.Source

/-!
# Expansion

The generation of text: a reference is replaced by the template of a rule chosen
for it, whose pieces are expanded in turn.

Everything that an expansion changes is one state: the namespace, the record of
traced calls, the source of draws and the metrics. An expansion that fails
leaves the state as it was at the failure.

How a candidate is chosen is a parameter. A weighted choice takes one draw from
a source; other choosers give other semantics of the same rules.

Nesting is bounded twice. The depth limit belongs to the settings, and reaching
it is an error that depends on the grammar alone. The fuel makes the recursion
well founded, and stands for the room that there is for nested calls.

An interpreter has limited room: it takes three nested calls for a level of an
expansion and allows for a thousand of them, so that with a limit above a third
of that it can give up before the limit is reached. This is left out of
`Engine.run`, whose fuel is the limit itself and is therefore never used up; only
without a limit a bound is needed, which stands for however deep one is ready to
follow. `Engine.runWithin` puts it back: it is the same run with room for a given
number of levels. The room that a search, a text of nested data or a comparison
of them takes on top of a level is left out of both.

## Main definitions

* `Metrics`: Counts of what was done.
* `Progress`: The state of an expansion.
* `ExpansionError`: Why an expansion fails.
* `Chooser`: How a candidate is chosen. Only candidates can be.
* `Chooser.weighted`: The choice by frequency with one draw.
* `Setup`: What stays the same during an expansion.
* `Setup.selectRule`: The rule for a reference, if any can be used.
* `Setup.fire`: The text of a rule used for a reference.
* `Setup.expand`: The text of a piece.
* `Engine`: Settings, source and metrics, which outlive a run.
* `Engine.runWith`: The text of a root reference, however candidates are chosen.
* `Engine.run`: The same by weighted choice.
* `Engine.runWithin`: The same with room for some levels only.
-/

namespace TextGrammar

/-- Counts of what was done: runs that gave text, references expanded, those
    without a candidate, and rules used for each tag. -/
structure Metrics where
  runs : Nat := 0
  expansions : Nat := 0
  unmatched : Nat := 0
  fired : Entries Nat := []
deriving DecidableEq

/-- Count a rule used for a tag. -/
def Metrics.countFired (m : Metrics) (tag : Tag) : Metrics :=
  { m with fired := m.fired.insert tag.toText ((m.fired.find? tag.toText).getD 0 + 1) }

/-- The state of an expansion. -/
structure Progress (σ : Type) where
  scene : Scene
  source : σ
  metrics : Metrics

/-- Why an expansion fails. The last reason is that there is no room for a deeper level,
    which is the interpreter's error and none of the grammar's. -/
inductive ExpansionError where
  | evaluation (e : EvaluationError)
  | nothingChosen (total : Binary64)
  | tooDeep (limit : Nat) (tag : Tag)
  | foreignItem (given : Option String)
  | undefinedNumeric
  | outOfFuel

/-- The text of the error. An interpreter without room says what it could not do any more.
    What that is depends on how the calls of the last level fill the room, and a comparison
    stands for it here. -/
def ExpansionError.message : ExpansionError → String
  | .evaluation e => e.message
  | .nothingChosen total =>
    "Weighted selection missed every candidate (total frequency " ++ total.numeral ++ ")"
  | .tooDeep limit tag =>
    "Expansion of " ++ tag.toText ++ " exceeded the maximum depth of " ++ toString limit
  | .foreignItem given => "Unknown content item " ++ Item.foreignText given
  | .undefinedNumeric => ""
  | .outOfFuel => "maximum recursion depth exceeded in comparison"

/-- Computations on the state of an expansion that may fail. -/
abbrev Expansion (σ : Type) := ExceptT ExpansionError (StateM (Progress σ))

/-- How one of the candidates is chosen, and what that does to the source. -/
structure Chooser (σ : Type) where
  choose : Candidates → σ → Option RegisteredRule × σ
  mem_of_choose : ∀ candidates source rule,
    (choose candidates source).1 = some rule → rule ∈ candidates.rules

instance {σ : Type} : CoeFun (Chooser σ) fun _ => Candidates → σ → Option RegisteredRule × σ :=
  ⟨Chooser.choose⟩

/-- The choice by frequency, which takes one draw. -/
def Chooser.weighted {σ : Type} [DrawSource σ] : Chooser σ where
  choose candidates source :=
    let (draw, source) := DrawSource.next source
    (candidates.choose draw, source)
  mem_of_choose candidates _ rule h := WeightedChoice.mem_of_pick _ _ candidates.rules rule h

/-- What stays the same during an expansion: the rules, how deep they may nest,
    and how candidates are chosen. -/
structure Setup (σ : Type) where
  rules : RuleSet
  maxDepth : Option Nat
  chooser : Chooser σ

namespace Setup

variable {σ : Type}

/-- Let the watchers of a chain act before a substitution. -/
def callBefore (chain : Chain) (target : String) : Expansion σ Unit :=
  modify fun p => { p with scene := chain.before target p.scene }

/-- Let the watchers of a chain act after a substitution, on the text. -/
def callAfter (chain : Chain) (target text : String) : Expansion σ String := do
  let p ← get
  let (result, scene) := chain.after? target text p.scene
  set { p with scene := scene }
  match result with
  | .ok text => pure text
  | .error .undefinedNumeric => throw .undefinedNumeric

/-- Whether expansions with candidates are refused at a depth. -/
def isTooDeep (setup : Setup σ) (depth : Nat) : Option Nat :=
  match setup.maxDepth with
  | some limit => if limit ≤ depth then some limit else none
  | none => none

/-- The rule for a reference at a depth, or nothing when there is no candidate.
    A reference without candidates is harmless at any depth and takes no draw. -/
def selectRule (setup : Setup σ) (depth : Nat) (ref : Reference) :
    Expansion σ (Option RegisteredRule) := do
  modify fun p => { p with metrics := { p.metrics with expansions := p.metrics.expansions + 1 } }
  let p ← get
  match Candidates.find setup.rules ref p.scene.data with
  | .error e => throw (.evaluation e)
  | .ok candidates =>
    if candidates.rules.isEmpty then
      set { p with metrics := { p.metrics with unmatched := p.metrics.unmatched + 1 } }
      pure none
    else
      -- The limit comes between the search and the draw: a refused reference takes
      -- no draw, and one without candidates is never refused.
      match setup.isTooDeep depth with
      | some limit => throw (.tooDeep limit ref.tag)
      | none =>
        let (choice, source) := setup.chooser candidates p.source
        set { p with source := source }
        match choice with
        | none => throw (.nothingChosen candidates.totalFrequency)
        | some rule =>
          modify fun p => { p with metrics := p.metrics.countFired ref.tag }
          pure (some rule)

/-- The text of a rule used for a reference: the pieces of its template in order,
    within the calls of the reference's watchers, within those of the rule's. -/
def fire (expandItem : Item → Expansion σ String) (rule : RegisteredRule) (ref : Reference) :
    Expansion σ String := do
  let target := ref.tag.toText
  callBefore rule.watchers target
  callBefore ref.watchers target
  let parts ← rule.content.mapM expandItem
  let text ← callAfter ref.watchers target ("".intercalate parts)
  callAfter rule.watchers target text

/-- The text of a look-up: the datum as text, or the look-up itself when the name
    is missing, within the calls of its watchers. -/
def expandLookup (key : String) (chain : Chain) : Expansion σ String := do
  let target := Item.lookupText key
  callBefore chain target
  let p ← get
  let text := match p.scene.data.get? key with
    | some d => d.toText
    | none => target
  callAfter chain target text

/-- The text of a piece at a depth. The first number is the fuel, which bounds
    how much deeper rules may nest. -/
def expand (setup : Setup σ) : Nat → Nat → Item → Expansion σ String
  | _, _, .text s => pure s
  | _, _, .lookup key chain => expandLookup key chain
  | _, _, .foreign given => throw (.foreignItem given)
  | 0, depth, .reference ref => do
    match ← setup.selectRule depth ref with
    | none => pure ref.tag.toText
    | some _ => throw .outOfFuel
  | fuel + 1, depth, .reference ref => do
    match ← setup.selectRule depth ref with
    | none => pure ref.tag.toText
    | some rule => fire (expand setup fuel (depth + 1)) rule ref

end Setup

/-- How deep an expansion without a limit is followed. -/
def unlimitedFuel : Nat := 1000

/-- The number of levels that an interpreter has room for: a thousand nested calls, of
    which each level takes three. -/
def stackLevels : Nat := 1000 / 3

/-- The settings of a series of runs, and what outlives each of them: the source
    of draws and the metrics. -/
structure Engine (σ : Type) where
  maxDepth : Option Nat
  source : σ
  metrics : Metrics := {}

namespace Engine

variable {σ : Type}

/-- The fuel that is enough from a depth on. -/
def fuel (engine : Engine σ) (depth : Nat) : Nat :=
  match engine.maxDepth with
  | some limit => limit - depth
  | none => unlimitedFuel

/-- The outcome of an expansion from a scene, with the scene and the engine after
    it, for a way to choose and an amount of fuel. -/
def performWith (chooser : Chooser σ) (fuel : Nat) (engine : Engine σ) (rules : RuleSet)
    (scene : Scene) (depth : Nat) (item : Item) :
    Except ExpansionError String × Scene × Engine σ :=
  let setup : Setup σ := ⟨rules, engine.maxDepth, chooser⟩
  let (outcome, progress) :=
    (setup.expand fuel depth item).run ⟨scene, engine.source, engine.metrics⟩
  (outcome, progress.scene, { engine with source := progress.source, metrics := progress.metrics })

/-- The text of a root reference, for a way to choose and an amount of fuel. A run
    that gives text is counted. -/
def runWith (chooser : Chooser σ) (fuel : Nat) (engine : Engine σ) (rules : RuleSet)
    (scene : Scene) (root : Reference) : Except ExpansionError String × Scene × Engine σ :=
  match engine.performWith chooser fuel rules scene 0 (.reference root) with
  | (.ok text, scene, engine) =>
    (.ok text, scene,
      { engine with metrics := { engine.metrics with runs := engine.metrics.runs + 1 } })
  | failed => failed

/-- The outcome of an expansion by weighted choice. -/
def perform [DrawSource σ] (engine : Engine σ) (rules : RuleSet) (scene : Scene) (depth : Nat)
    (item : Item) : Except ExpansionError String × Scene × Engine σ :=
  engine.performWith Chooser.weighted (engine.fuel depth) rules scene depth item

/-- The text of a root reference by weighted choice. -/
def run [DrawSource σ] (engine : Engine σ) (rules : RuleSet) (scene : Scene) (root : Reference) :
    Except ExpansionError String × Scene × Engine σ :=
  engine.runWith Chooser.weighted (engine.fuel 0) rules scene root

/-- The text of a root reference by weighted choice, where there is room for a number of
    levels. A run that needs more of them ends there. -/
def runWithin [DrawSource σ] (levels : Nat) (engine : Engine σ) (rules : RuleSet) (scene : Scene)
    (root : Reference) : Except ExpansionError String × Scene × Engine σ :=
  engine.runWith Chooser.weighted (min (engine.fuel 0) levels) rules scene root

end Engine

end TextGrammar
