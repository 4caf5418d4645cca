import TextGrammar.Text.Printable

/-!
# Quoted Text

A text as an error message shows it: in quotes, with the characters escaped
that would not be seen as they are.

Single quotes are used unless the text holds a single quote and no double
one, so that a quote rarely needs an escape.

## Main definitions

* `quoteMark`: The quote that is put around a text.
* `escape`: How a character is written inside the quotes.
* `quoted`: The text in quotes.
-/

namespace TextGrammar

namespace Text

/-- A number in lowercase hexadecimal with at least `width` digits. -/
def hexadecimal (width : Nat) (n : Nat) : List Char :=
  let digits := Nat.toDigits 16 n
  List.replicate (width - digits.length) '0' ++ digits

/-- The quote put around a text: the single one, unless the text holds that one
    and not the double one. -/
def quoteMark (cs : List Char) : Char :=
  if cs.contains '\'' && !cs.contains '"' then '"' else '\''

/-- A character inside the given quotes. What is not printable is written by its
    code point, in the shortest of the three hexadecimal forms that holds it. -/
def escape (mark : Char) (c : Char) : List Char :=
  if c == mark || c == '\\' then ['\\', c]
  else if c == '\n' then ['\\', 'n']
  else if c == '\r' then ['\\', 'r']
  else if c == '\t' then ['\\', 't']
  else if isPrintable c then [c]
  else if c.toNat < 0x100 then '\\' :: 'x' :: hexadecimal 2 c.toNat
  else if c.toNat < 0x10000 then '\\' :: 'u' :: hexadecimal 4 c.toNat
  else '\\' :: 'U' :: hexadecimal 8 c.toNat

/-- The text in quotes. -/
def quoted (text : String) : String :=
  let cs := text.toList
  let mark := quoteMark cs
  String.ofList (mark :: cs.flatMap (escape mark) ++ [mark])

end Text

end TextGrammar
