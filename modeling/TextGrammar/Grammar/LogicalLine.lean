import TextGrammar.Text.Blank
import TextGrammar.Text.LineBreak

/-!
# Logical Lines

The rules of a grammar text, one to a logical line.

A logical line starts on a line without indent and goes on over the indented
lines after it. Comments may stand anywhere in between and belong to nothing. A
blank line ends the logical line, so an indented line after it has nothing to
go on with.

## Main definitions

* `LineKind`: Blank, comment, indented or head.
* `LogicalLine`: A text and the number of its first line.
* `LogicalLine.split`: The logical lines of a text, or the number of the first
  indented line that goes on with nothing.
-/

namespace TextGrammar

/-- The kinds of physical lines. -/
inductive LineKind where
  | blank
  | comment
  | indented
  | head
deriving DecidableEq

/-- The kind of a line: blank if it is only white space, a comment if a number
    sign is its first other character, else indented or not. -/
def LineKind.of (line : List Char) : LineKind :=
  match Text.strip line, line with
  | [], _ => .blank
  | '#' :: _, _ => .comment
  | _, c :: _ => if Text.isBlank c then .indented else .head
  | _, [] => .blank

/-- A rule's text, and the number of the line that it starts on. -/
structure LogicalLine where
  text : List Char
  line : Nat
deriving DecidableEq

namespace LogicalLine

/-- The logical line with another line's text behind it. -/
def extend (l : LogicalLine) (more : List Char) : LogicalLine :=
  { l with text := l.text ++ ' ' :: more }

/-- The logical lines of physical ones. The arguments are the number of the first
    line, whether an indented line may follow, the logical line being collected,
    and the lines. -/
def splitFrom : Nat → Bool → Option LogicalLine → List (List Char) →
    Except Nat (List LogicalLine)
  | _, _, current, [] => .ok current.toList
  | number, mayContinue, current, raw :: rest =>
    match LineKind.of raw with
    | .blank => splitFrom (number + 1) false current rest
    | .comment => splitFrom (number + 1) mayContinue current rest
    | .indented =>
      if mayContinue then
        splitFrom (number + 1) mayContinue (current.map fun l => l.extend (Text.strip raw)) rest
      else
        .error number
    | .head =>
      match splitFrom (number + 1) true (some ⟨Text.strip raw, number⟩) rest with
      | .ok lines => .ok (current.toList ++ lines)
      | .error n => .error n

/-- The logical lines of a text, or the number of the first indented line that
    goes on with nothing. -/
def split (text : String) : Except Nat (List LogicalLine) :=
  splitFrom 1 false none (Text.lines text.toList)

end LogicalLine

end TextGrammar
