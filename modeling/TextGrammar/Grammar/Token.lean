/-!
# Tokens

The smallest parts of a grammar line, read off the front of its characters.

Which token is read depends on what may stand at a place, so there is one reader
for each class. A reader gives the token and what follows it, or nothing if the
characters do not start with one.

## Main definitions

* `Token.isIgnored`: What may stand between the tokens of headers and brackets.
* `Token.name?`, `Token.hashtag?`, `Token.quoted?`: Words, labels and strings.
* `Token.integer?`, `Token.number?`: Numbers with an optional sign.
* `Token.literalText`: Text up to a bracket.
-/

namespace TextGrammar

namespace Token

/-- The white space that separates tokens. It is a narrower class than that of
    blank characters. -/
def isIgnored (c : Char) : Bool :=
  c == ' ' || c == '\t' || c == '\x0c' || c == '\r' || c == '\n'

/-- The characters with which names start. -/
def isNameStart (c : Char) : Bool := c.isAlpha || c == '_'

/-- The characters of names after the first. -/
def isNameRest (c : Char) : Bool := c.isAlphanum || c == '_'

/-- A name: ASCII letters, digits and underscores, with no digit in front. -/
def name? : List Char → Option (List Char × List Char)
  | c :: rest =>
    if isNameStart c then some (c :: rest.takeWhile isNameRest, rest.dropWhile isNameRest)
    else none
  | [] => none

/-- A label: a name right behind a number sign, which is not part of it. -/
def hashtag? : List Char → Option (List Char × List Char)
  | '#' :: rest => name? rest
  | _ => none

/-- The rest of a string behind its opening quote. A backslash takes the next
    character as it is, and a line feed cannot occur. -/
def quotedRest? : List Char → Option (List Char × List Char)
  | [] => none
  | '"' :: rest => some ([], rest)
  | '\n' :: _ => none
  | '\\' :: '\n' :: _ => none
  | '\\' :: c :: rest => (quotedRest? rest).map fun (text, rest) => (c :: text, rest)
  | c :: rest => (quotedRest? rest).map fun (text, rest) => (c :: text, rest)

/-- A string in double quotes, as the text that it stands for. -/
def quoted? : List Char → Option (List Char × List Char)
  | '"' :: rest => quotedRest? rest
  | _ => none

/-- At least one digit. -/
def digits? (cs : List Char) : Option (List Char × List Char) :=
  if (cs.takeWhile Char.isDigit).isEmpty then none
  else some (cs.takeWhile Char.isDigit, cs.dropWhile Char.isDigit)

/-- An optional sign. -/
def sign : List Char → List Char × List Char
  | '+' :: rest => (['+'], rest)
  | '-' :: rest => (['-'], rest)
  | cs => ([], cs)

/-- An integer with an optional sign. -/
def integer? (cs : List Char) : Option (List Char × List Char) :=
  let (s, rest) := sign cs
  (digits? rest).map fun (ds, rest) => (s ++ ds, rest)

/-- Digits with a point among or around them, or without one. -/
def mantissa? (cs : List Char) : Option (List Char × List Char) :=
  let whole := cs.takeWhile Char.isDigit
  match cs.dropWhile Char.isDigit with
  | '.' :: rest =>
    let fraction := rest.takeWhile Char.isDigit
    if whole.isEmpty && fraction.isEmpty then none
    else some (whole ++ '.' :: fraction, rest.dropWhile Char.isDigit)
  | rest => if whole.isEmpty then none else some (whole, rest)

/-- An exponent, or nothing if no complete one follows. -/
def exponent : List Char → List Char × List Char
  | e :: rest =>
    if e == 'e' || e == 'E' then
      match integer? rest with
      | some (power, after) => (e :: power, after)
      | none => ([], e :: rest)
    else ([], e :: rest)
  | [] => ([], [])

/-- A number with an optional sign. -/
def number? (cs : List Char) : Option (List Char × List Char) :=
  let (s, rest) := sign cs
  (mantissa? rest).map fun (m, rest) =>
    let (e, rest) := exponent rest
    (s ++ m ++ e, rest)

/-- Literal text: everything up to an opening bracket, where a backslash takes the
    next character as it is. A backslash at the very end is left. -/
def literalText : List Char → List Char × List Char
  | [] => ([], [])
  | '[' :: rest => ([], '[' :: rest)
  | '\\' :: c :: rest =>
    let (text, rest) := literalText rest
    (c :: text, rest)
  | ['\\'] => ([], ['\\'])
  | c :: rest =>
    let (text, rest) := literalText rest
    (c :: text, rest)

end Token

end TextGrammar
