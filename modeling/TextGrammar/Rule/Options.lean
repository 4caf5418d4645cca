import TextGrammar.Rule.Basic
import TextGrammar.Validation

/-!
# Rule Options

The making of a rule from options given as plain values.

Options are read leniently, with defaults for those that are missing. A guard
that does not parse and labels that are no list end the reading at once;
everything else is collected, and reported together.

## Main definitions

* `RuleOptions`: The options as they are given.
* `RuleOptions.Error`: Why options are refused.
* `RuleOptions.check`: The parts of a rule that the options describe.
* `Rule.build`: The rule for a tag, a template and options.
-/

namespace TextGrammar

/-- Options of a rule as they are given, each of which may be missing. What is
    given as a watcher need not be one. -/
structure RuleOptions where
  priority : Option Value := none
  minPriority : Option Value := none
  frequency : Option Value := none
  guard : Option Value := none
  hashtags : Option Value := none
  watchers : List (Option Watcher) := []

namespace RuleOptions

/-- Why options are refused: a word of the guard is not known, the labels are of
    a kind that holds none, or fields have problems. -/
inductive Error where
  | unknownWord (word : String)
  | notIterable (kind : String)
  | invalid (problems : List Problem)

/-- A priority as an integer. A truth value is refused although it could be read
    as one. -/
def readPriority : Value → Except ProblemKind Int
  | .boolean _ => .error .valueError
  | v => v.readInteger

/-- A frequency: any number that is at least zero. -/
def readFrequency (v : Value) : Except ProblemKind Binary64 :=
  match v.readNumber with
  | .error k => .error k
  | .ok x => if 0 ≤ x then .ok x else .error .belowMinimum

/-- A guard: text is parsed unless it is blank. The outer result is the word that
    cannot be parsed. -/
def readGuard : Value → Except String (Except ProblemKind (Option Expression))
  | .null => .ok (.ok none)
  | .text s =>
    if (Text.strip s.toList).isEmpty then .ok (.ok none)
    else
      match Expression.parse s with
      | .ok e => .ok (.ok (some e))
      | .error w => .error w
  | _ => .ok (.error .wrongClass)

/-- A label without the number signs in front of it. -/
def bareLabel (label : String) : String := String.ofList (label.toList.dropWhile (· == '#'))

/-- Labels: one text, or a sequence of values taken as texts. The keys of a
    mapping count as one. The other kinds hold no labels. -/
def readHashtags : Value → Except String (List String)
  | .null => .ok []
  | .text s => .ok [bareLabel s]
  | .sequence vs => .ok (vs.map fun v => bareLabel v.toText)
  | .mapping es => .ok (es.map fun e => bareLabel e.1)
  | v => .error v.kind

/-- The problem of a field, if reading it failed. -/
def problemOf {α : Type} (field : String) : Except ProblemKind α → List Problem
  | .ok _ => []
  | .error k => [⟨field, k⟩]

/-- The parts of a rule that options describe. -/
def check (tag : Tag) (content : Content) (options : RuleOptions) : Except Error Rule.Parts :=
  let priority : Except ProblemKind Int := match options.priority with
    | none => .ok 1
    | some v => readPriority v
  let minPriority : Except ProblemKind (Option Int) := match options.minPriority with
    | none | some .null => .ok none
    | some v => (readPriority v).map some
  let frequency : Except ProblemKind Binary64 := match options.frequency with
    | none => .ok 1
    | some v => readFrequency v
  match readGuard (options.guard.getD .null) with
  | .error w => .error (.unknownWord w)
  | .ok guard =>
    match readHashtags (options.hashtags.getD .null) with
    | .error kind => .error (.notIterable kind)
    | .ok hashtags =>
      match priority, minPriority, frequency, guard, options.watchers.all Option.isSome with
      | .ok priority, .ok minPriority, .ok frequency, .ok guard, true =>
        .ok {
          tag := tag
          content := content
          priority := priority
          minPriority := minPriority
          frequency := .real frequency
          guard := guard
          hashtags := hashtags
          watchers := options.watchers.filterMap id }
      | priority, minPriority, frequency, guard, watchersFit =>
        .error (.invalid (problemOf "priority" priority ++ problemOf "min_priority" minPriority ++
          problemOf "frequency" frequency ++ problemOf "guard" guard ++
          (if watchersFit then [] else [⟨"watchers", .wrongClass⟩])))

end RuleOptions

/-- Why a rule cannot be built. -/
inductive BuildError where
  | options (e : RuleOptions.Error)
  | parts (e : Rule.Error)

/-- The rule for a tag, a template and options. -/
def Rule.build (tag : Tag) (content : Content) (options : RuleOptions) : Except BuildError Rule :=
  match options.check tag content with
  | .error e => .error (.options e)
  | .ok parts =>
    match Rule.create parts with
    | .error e => .error (.parts e)
    | .ok rule => .ok rule

end TextGrammar
