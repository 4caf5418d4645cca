import TextGrammar.Rule.Options

/-!
# Errors of Grammar Texts

What can be wrong with a grammar text, and where.

## Main definitions

* `GrammarFault`: What is wrong.
* `GrammarError`: What is wrong, with the file and the line as far as known.
* `LoadError`: A fault with its place, or an integer with too many digits.
-/

namespace TextGrammar

/-- The parts of a rule that are read on their own. -/
inductive RulePart where
  | header
  | content
deriving DecidableEq

/-- The name of a part. -/
def RulePart.name : RulePart → String
  | .header => "header"
  | .content => "content"

/-- What can be wrong with a grammar text. -/
inductive GrammarFault where
  | nothingToContinue
  | unexpectedInput (part : RulePart) (column : Nat) (text : String)
  | missingArrow (text : String)
  | filter (e : FilterError)
  | unknownWord (word : String)
  | invalidOptions (tag : Tag) (problems : List Problem)
deriving DecidableEq

/-- What is wrong, and where, as far as that is known. -/
structure GrammarError where
  fault : GrammarFault
  file : Option String := none
  line : Option Int := none
deriving DecidableEq

/-- The text of a fault. How the problems of options are worded is left open. -/
def GrammarFault.message (describe : List Problem → String) : GrammarFault → String
  | .nothingToContinue => "Can't have a follow-on line at the start, or after a blank line."
  | .unexpectedInput part column text =>
    "Unexpected input in " ++ part.name ++ " at column " ++ toString column ++ ": " ++
      Text.quoted text
  | .missingArrow text => "Expected '->' in rule: " ++ Text.quoted text
  | .filter e => e.message
  | .unknownWord word => "Token " ++ Text.quoted word ++ " not recognized."
  | .invalidOptions tag problems =>
    "Invalid rule options for " ++ tag.toText ++ ": " ++ describe problems

/-- The text of an error: the place in front of what is wrong. A line without a
    file counts as one of a string. -/
def GrammarError.message (describe : List Problem → String) (e : GrammarError) : String :=
  let text := e.fault.message describe
  let file := e.file.getD ""
  match e.line with
  | none => if file == "" then text else file ++ ": " ++ text
  | some line =>
    (if file == "" then "<string>" else file) ++ ":" ++ toString line ++ ": " ++ text

/-- Why a text cannot be loaded. -/
inductive LoadError where
  | grammar (e : GrammarError)
  | tooManyDigits (option : String) (digits : Nat)
deriving DecidableEq

/-- The text of the error. -/
def LoadError.message (describe : List Problem → String) : LoadError → String
  | .grammar e => e.message describe
  | .tooManyDigits option digits =>
    "Error trying to process rule \"" ++ option ++ "\":\n\nExceeds the limit (" ++
      toString Numeral.integerDigitLimit ++
      " digits) for integer string conversion: value has " ++ toString digits ++
      " digits; use sys.set_int_max_str_digits() to increase the limit"

end TextGrammar
