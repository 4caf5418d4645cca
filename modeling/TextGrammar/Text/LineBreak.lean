/-!
# Line Breaks

The characters that end a line, and the lines of a text.

A carriage return with a line feed after it is one break. A break at the very
end of a text does not start another line, so the empty text has no lines.

## Main definitions

* `isLineBreak`: The characters that end a line.
* `lines`: The lines of a text, without their breaks.
-/

namespace TextGrammar

namespace Text

/-- The characters that end a line: the controls from line feed to carriage
    return, the separators U+001C to U+001E, next line, and the line and
    paragraph separators. -/
def isLineBreak (c : Char) : Bool :=
  let code := c.toNat
  (0x0A ≤ code && code ≤ 0x0D) || (0x1C ≤ code && code ≤ 0x1E) || code == 0x85 ||
    code == 0x2028 || code == 0x2029

/-- The lines of a text. The second argument is the line being collected, in
    reverse, or nothing while no line has begun. -/
def linesFrom : List Char → Option (List Char) → List (List Char)
  | [], none => []
  | [], some line => [line.reverse]
  | '\r' :: '\n' :: rest, line => (line.getD []).reverse :: linesFrom rest none
  | c :: rest, line =>
    if isLineBreak c then (line.getD []).reverse :: linesFrom rest none
    else linesFrom rest (some (c :: line.getD []))

/-- The lines of a text, without the breaks that end them. -/
def lines (cs : List Char) : List (List Char) := linesFrom cs none

end Text

end TextGrammar
