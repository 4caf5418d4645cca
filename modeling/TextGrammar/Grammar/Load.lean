import TextGrammar.Grammar.Error
import TextGrammar.Grammar.LogicalLine
import TextGrammar.Grammar.Reader
import TextGrammar.Rule.RuleSet

/-!
# Loading Grammars

From grammar texts to rules.

A rule stands on one logical line: a header, an arrow and a template. Forms are
read first and given meaning afterwards, in the order in which they stand, so
that a line with a syntax error is reported as such whatever filters it names.
The header comes before the template in every respect.

## Main definitions

* `Place`: The file and the line of a text, as far as known.
* `Grammar.readContent`: The template that a text spells.
* `Grammar.readRule`: The rule that a line spells.
* `Grammar.load`: The rules of a text, put into a rule set.
-/

namespace TextGrammar

/-- Where a text comes from, as far as that is known. -/
structure Place where
  file : Option String := none
  line : Option Int := none

namespace Grammar

/-- A fault at a place. -/
def faultAt {α : Type} (place : Place) (fault : GrammarFault) : Except LoadError α :=
  .error (.grammar ⟨fault, place.file, place.line⟩)

/-- The result of a reader, with the place in the text where it failed. -/
def located {α : Type} (place : Place) (part : RulePart) (text : List Char)
    (result : Except (List Char) α) : Except LoadError α :=
  match result with
  | .ok a => .ok a
  | .error rest =>
    faultAt place (.unexpectedInput part (Reader.column text rest) (String.ofList text))

/-- The watcher that a form stands for. -/
def watcherOf (place : Place) : WatcherForm → Except LoadError Watcher
  | .capture key => .ok (.capture key)
  | .filter name args =>
    match Watcher.ofFilter? name args with
    | .ok w => .ok w
    | .error e => faultAt place (.filter e)

/-- The piece of a template that a form stands for. -/
def itemOf (place : Place) : ItemForm → Except LoadError Item
  | .text s => .ok (.text s)
  | .lookup key ws => do
    let ws ← ws.mapM (watcherOf place)
    pure (.lookup key ws)
  | .reference tag labels ws => do
    let ws ← ws.mapM (watcherOf place)
    pure (.reference ⟨tag, sortedDistinct labels, ws⟩)

/-- The integer that a literal stands for. Very long ones are refused. -/
def integerOf (option : String) (literal : List Char) : Except LoadError Int :=
  let (negative, digits) := Numeral.splitSign literal
  -- The sign does not count as a digit.
  if Numeral.integerDigitLimit < digits.length then .error (.tooManyDigits option digits.length)
  else
    let size : Int := Nat.ofDigitChars 10 digits 0
    .ok (if negative then -size else size)

/-- The number that a literal stands for. -/
def numberOf (literal : List Char) : Binary64 := (Numeral.readPlain? literal).getD .nan

/-- Take an option into those collected so far. Of two for the same field the
    later one counts, while labels and watchers add up. -/
def addOption (place : Place) (options : RuleOptions) : OptionForm → Except LoadError RuleOptions
  | .priority literal => do
    let i ← integerOf "priority" literal
    pure { options with priority := some (.number (.whole i)) }
  | .minPriority literal => do
    let i ← integerOf "min_priority" literal
    pure { options with minPriority := some (.number (.whole i)) }
  | .frequency literal =>
    .ok { options with frequency := some (.number (.real (numberOf literal))) }
  | .guard text => .ok { options with guard := some (.text text) }
  | .hashtag label =>
    let labels := match options.hashtags with
      | some (.sequence vs) => vs
      | _ => []
    .ok { options with hashtags := some (.sequence (labels ++ [.text label])) }
  | .watcher form => do
    let w ← watcherOf place form
    pure { options with watchers := options.watchers ++ [some w] }

/-- The template that a text spells. -/
def readContentChars (text : List Char) (place : Place) : Except LoadError Content := do
  let forms ← located place .content text (Reader.template? text)
  forms.mapM (itemOf place)

/-- The template that a text spells. -/
def readContent (text : String) (place : Place) : Except LoadError Content :=
  readContentChars text.toList place

/-- The tag and the options that a header spells. -/
def readHeader (text : List Char) (place : Place) : Except LoadError (Tag × RuleOptions) := do
  let form ← located place .header text (Reader.header? text)
  let options ← form.options.foldlM (addOption place) {}
  pure (form.tag, options)

/-- The characters in front of the first arrow and those behind it. -/
def splitArrow? : List Char → Option (List Char × List Char)
  | [] => none
  | '-' :: '>' :: rest => some ([], rest)
  | c :: rest => (splitArrow? rest).map fun (left, right) => (c :: left, right)

/-- The rule that a line spells. -/
def readRuleChars (text : List Char) (place : Place) : Except LoadError Rule :=
  match splitArrow? text with
  | none => faultAt place (.missingArrow (String.ofList text))
  | some (left, right) => do
    -- The values of the options are checked last, by the making of the rule.
    let (tag, options) ← readHeader (Text.strip left) place
    let content ← readContentChars (Text.strip right) place
    match Rule.build tag content options with
    | .ok rule => .ok rule
    | .error (.options (.unknownWord word)) => faultAt place (.unknownWord word)
    | .error (.options (.invalid problems)) => faultAt place (.invalidOptions tag problems)
    | .error (.options (.notIterable _)) => faultAt place (.invalidOptions tag [])
    | .error (.parts _) => faultAt place (.invalidOptions tag [])

/-- The rule that a line spells. -/
def readRule (text : String) (place : Place) : Except LoadError Rule :=
  readRuleChars text.toList place

/-- Put the rules of logical lines into a rule set, up to the first one that
    cannot be read. -/
def loadLines (file : Option String) : RuleSet → List LogicalLine →
    Except LoadError Unit × RuleSet
  | rules, [] => (.ok (), rules)
  | rules, l :: rest =>
    match readRuleChars l.text ⟨file, some l.line⟩ with
    -- The rules of the lines in front have been added for good.
    | .error e => (.error e, rules)
    | .ok rule => loadLines file (rules.add rule).2 rest

/-- The logical lines of a text. -/
def splitLines (text : String) (file : Option String) : Except LoadError (List LogicalLine) :=
  match LogicalLine.split text with
  | .ok lines => .ok lines
  | .error number => faultAt ⟨file, some number⟩ .nothingToContinue

/-- Put the rules of a text into a rule set. Those in front of an error stay. -/
def load (text : String) (file : Option String) (rules : RuleSet) :
    Except LoadError Unit × RuleSet :=
  match splitLines text file with
  -- All lines are split before the first one is read, so nothing is added here.
  | .error e => (.error e, rules)
  | .ok lines => loadLines file rules lines

end Grammar

end TextGrammar
