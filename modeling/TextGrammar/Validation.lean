import TextGrammar.Text.Order
import TextGrammar.Value

/-!
# Validation

The lenient reading of plain values as integers and numbers, and what is
reported when a value does not fit its field.

A number field takes texts too, and an integer field takes integral numbers in
any form. The text of an integer may have leading zeros, a fraction of zeros and
single underscores, all of which are dropped before it is read. All fields are
read before anything is reported, so that the report names every problem at
once.

## Main definitions

* `ProblemKind`: What can be wrong with a value.
* `Problem`: A field and what is wrong with its value.
* `Value.intLimit`: The bound of the integers of 64 bits.
* `Value.bareInteger?`: The text of an integer without what may be left out.
* `Value.readInteger`: A value as an integer.
* `Value.readNumber`: A value as a number.
-/

namespace TextGrammar

/-- What can be wrong with the value of a field. -/
inductive ProblemKind where
  | belowMinimum
  | intParsing
  | intFromFloat
  | intSize
  | intType
  | finiteNumber
  | floatParsing
  | floatType
  | valueError
  | wrongClass
deriving DecidableEq

/-- The code word of a kind of problem. -/
def ProblemKind.code : ProblemKind → String
  | .belowMinimum => "greater_than_equal"
  | .intParsing => "int_parsing"
  | .intFromFloat => "int_from_float"
  | .intSize => "int_parsing_size"
  | .intType => "int_type"
  | .finiteNumber => "finite_number"
  | .floatParsing => "float_parsing"
  | .floatType => "float_type"
  | .valueError => "value_error"
  | .wrongClass => "is_instance_of"

/-- A field and what is wrong with its value. -/
structure Problem where
  field : String
  kind : ProblemKind
deriving DecidableEq

/-- The problem as one word: the field and the code of its kind. -/
def Problem.toText (p : Problem) : String := p.field ++ ":" ++ p.kind.code

/-- The words for a list of problems, sorted and each once. -/
def Problem.summary (problems : List Problem) : List String :=
  sortedDistinct (problems.map Problem.toText)

namespace Value

/-- The characters after the leading zeros of a text that starts with one.
    Underscores among the zeros go with them. A digit ends them, and so does a
    minus sign; a zero stays in front of a point and when nothing else is left.
    The first argument is the character that was passed over last. -/
def dropLeadingZeros? : Char → List Char → Option (List Char)
  | passed, [] => some [passed]
  | passed, c :: rest =>
    if c == '0' || c == '_' then dropLeadingZeros? c rest
    else if c.isDigit || c == '-' then some (c :: rest)
    else if c == '.' then some (passed :: c :: rest)
    else none

/-- The characters of an unsigned text from its first significant one on. -/
def significant? : List Char → Option (List Char)
  | '0' :: rest => dropLeadingZeros? '0' rest
  | c :: rest => if c.isDigit then some (c :: rest) else none
  | [] => none

/-- The text without a point that only zeros follow. A point with nothing behind it
    stays. -/
def dropZeroFraction (cs : List Char) : List Char :=
  match cs.dropWhile (· != '.') with
  | '.' :: d :: decimals =>
    if (d :: decimals).all (· == '0') then cs.takeWhile (· != '.') else cs
  | _ => cs

/-- A text without underscores: none of them at the ends, and no two together. -/
def dropSingleUnderscores? (cs : List Char) : Option (List Char) :=
  -- Each character is looked at together with the one behind it.
  let doubled := (cs.zip cs.tail).any fun pair => pair.1 == '_' && pair.2 == '_'
  if cs.head? == some '_' || cs.getLast? == some '_' || doubled then none
  else some (cs.filter (· != '_'))

/-- The text of an integer in its bare form: unpadded, without a plus sign,
    leading zeros, zeros after a point, or underscores. A minus sign stands in
    front of the leading zeros or right behind them. -/
def bareInteger? (cs : List Char) : Option (List Char) :=
  let (sign, unsigned) : List Char × List Char := match Text.trim Numeral.isPadding cs with
    | '-' :: rest => (['-'], rest)
    | '+' :: rest => ([], rest)
    | trimmed => ([], trimmed)
  ((significant? unsigned).bind fun kept => dropSingleUnderscores? (dropZeroFraction kept)).map
    (sign ++ ·)

/-- An optional minus sign and digits as an integer. There are no leading zeros, and
    not too many digits. -/
def plainInteger? (cs : List Char) : Option Int :=
  let (negative, digits) := match cs with
    | '-' :: rest => (true, rest)
    | _ => (false, cs)
  let zeroLeads := digits.head? == some '0' && 1 < digits.length
  let tooLong := Numeral.integerDigitLimit < digits.length
  if digits.isEmpty || zeroLeads || tooLong || !digits.all Char.isDigit then none
  else
    let size : Int := Nat.ofDigitChars 10 digits 0
    some (if negative then -size else size)

/-- Whether a text opens with an integer that has too many digits: an optional minus
    sign and digits, of which the first is not zero. -/
def opensTooLong (cs : List Char) : Bool :=
  let unsigned := match cs with
    | '-' :: rest => rest
    | _ => cs
  let digits := unsigned.takeWhile Char.isDigit
  digits.head? != some '0' && Numeral.integerDigitLimit < digits.length

/-- The integer that a text stands for. Too many digits are told apart from other
    mistakes only where the text opens with them. -/
def integerOfText (s : String) : Except ProblemKind Int :=
  if opensTooLong s.toList then .error .intSize
  else
    match (bareInteger? s.toList).bind plainInteger? with
    | some i => .ok i
    | none => .error .intParsing

/-- Integers of 64 bits stay below this, with either sign. -/
def intLimit : Int := Nat.pow 2 63

/-- The integer that a number is, when it is one of at most 64 bits. -/
def integerOfNumber (x : Binary64) : Except ProblemKind Int :=
  match x with
  | .nan _ | .infinity _ => .error .finiteNumber
  | .finite .. =>
    match x.toInt? with
    | none => .error .intFromFloat
    -- The lowest integer of 64 bits is refused too.
    | some i => if -intLimit < i ∧ i < intLimit then .ok i else .error .intSize

/-- A value as an integer. -/
def readInteger : Value → Except ProblemKind Int
  | .boolean b => .ok (if b then 1 else 0)
  | .number (.whole i) => .ok i
  | .number (.real x) => integerOfNumber x
  | .text s => integerOfText s
  | _ => .error .intType

/-- The number that a text stands for. Digits of other scripts are not read, and
    underscores only in a text that is not padded. -/
def numberOfText (s : String) : Except ProblemKind Binary64 :=
  match Numeral.readPlain? (Text.trim Numeral.isPadding s.toList) with
  | some x => .ok x
  -- The second attempt is made on the text as it was given, padding included.
  | none =>
    match (dropSingleUnderscores? s.toList).bind Numeral.readPlain? with
    | some x => .ok x
    | none => .error .floatParsing

/-- A value as a number. -/
def readNumber : Value → Except ProblemKind Binary64
  | .boolean b => .ok (if b then 1 else 0)
  | .number q =>
    match q.toBinary64? with
    | some x => .ok x
    | none => .error .floatType
  | .text s => numberOfText s
  | _ => .error .floatType

end Value

end TextGrammar
