import TextGrammar.Entries
import TextGrammar.Number.Numeral
import TextGrammar.Text.Quoted

/-!
# Plain Values

What a caller hands over before it is checked: entries for a namespace, and
options for rules and settings.

## Main definitions

* `Quantity`: A number as it was given, an integer without bound or a double.
* `Value`: Nothing, a truth value, a number, a text, a mapping or a sequence.
* `Value.ofEntries`: A mapping from pairs, of which the last of a key counts.
* `Value.kind`: The word for the kind of a value in messages.
* `Value.toText`: A value as text.
-/

namespace TextGrammar

/-- A number as it was given. -/
inductive Quantity where
  | whole (i : Int)
  | real (x : Binary64)
deriving DecidableEq

namespace Quantity

/-- The number as a double, unless it is an integer too large for one. -/
def toBinary64? : Quantity → Option Binary64
  | .whole i => Binary64.ofInt? i
  | .real x => some x

/-- Whether the number is less than zero. -/
def isNegative : Quantity → Bool
  | .whole i => decide (i < 0)
  | .real x => decide (x < 0)

/-- Whether the number is one. -/
def isOne : Quantity → Bool
  | .whole i => i == 1
  | .real x => x.equal 1

/-- The number as text. -/
def toText : Quantity → String
  | .whole i => toString i
  | .real x => x.numeral

end Quantity

/-- A value as a caller gives it. -/
inductive Value where
  | null
  | boolean (b : Bool)
  | number (q : Quantity)
  | text (s : String)
  | mapping (entries : List (String × Value))
  | sequence (items : List Value)
deriving Inhabited

namespace Value

/-- The mapping written by pairs one after the other: a key given twice keeps
    its place and takes the later value. -/
def ofEntries (pairs : List (String × Value)) : Value := .mapping (Entries.ofList pairs)

/-- The word for the kind of a value in messages. -/
def kind : Value → String
  | .null => "NoneType"
  | .boolean _ => "bool"
  | .number (.whole _) => "int"
  | .number (.real _) => "float"
  | .text _ => "str"
  | .mapping _ => "dict"
  | .sequence _ => "list"

mutual

/-- A value as it is shown inside another: like its text, with quotes around
    texts. -/
def shown : Value → String
  | .null => "None"
  | .boolean b => if b then "True" else "False"
  | .number q => q.toText
  | .text s => Text.quoted s
  | .mapping es => "\x7b" ++ ", ".intercalate (shownPairs es) ++ "\x7d"
  | .sequence vs => "[" ++ ", ".intercalate (shownItems vs) ++ "]"

/-- The shown forms of the pairs of a mapping. -/
def shownPairs : List (String × Value) → List String
  | [] => []
  | (k, v) :: rest => (Text.quoted k ++ ": " ++ shown v) :: shownPairs rest

/-- The shown forms of the items of a sequence. -/
def shownItems : List Value → List String
  | [] => []
  | v :: rest => shown v :: shownItems rest

end

/-- A value as text: a text is itself, and any other value as it is shown. -/
def toText : Value → String
  | .text s => s
  | v => v.shown

end Value

end TextGrammar
