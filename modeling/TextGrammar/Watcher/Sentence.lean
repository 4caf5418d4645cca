import TextGrammar.Text.Uppercase

/-!
# Sentences

A text made into a sentence: it starts with a capital and ends with a mark that
ends sentences.

## Main definitions

* `isTerminal`: The marks that end a sentence.
* `isSoftPause`: The marks that a period replaces.
* `sentence`: The text as a sentence.
-/

namespace TextGrammar

namespace Sentence

/-- The marks that end a sentence. -/
def isTerminal (c : Char) : Bool := c == '.' || c == '!' || c == '?'

/-- The marks at the end of a text that give way to a period. -/
def isSoftPause (c : Char) : Bool := c == ';' || c == ':' || c == ',' || c == '-'

/-- The text with its first character in upper case. -/
def capitalize : List Char → List Char
  | [] => []
  | c :: rest => Text.uppercase c ++ rest

/-- The text without the soft pause at its end, and the period that it lacks. -/
def close (cs : List Char) : List Char × List Char :=
  match cs.getLast? with
  | none => (cs, [])
  | some last =>
    if isTerminal last then (cs, [])
    else if isSoftPause last then (cs.dropLast, ['.'])
    else (cs, ['.'])

/-- The text as a sentence. The empty text stays empty. -/
def sentence (text : String) : String :=
  let (body, ending) := close text.toList
  String.ofList (capitalize body ++ ending)

end Sentence

end TextGrammar
