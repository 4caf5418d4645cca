import TextGrammar.Number.Decimal
import TextGrammar.Text.Blank
import TextGrammar.Text.Digit

/-!
# Numbers as Text

How numbers are written and read.

A number has two written forms. Its numeral shows that it is not an integer
type: it always has a fraction or an exponent. Its display form, which is the
one that generated text contains, writes an integer with all its digits and
nothing else.

Reading is permissive: white space around the numeral, digits of any script,
single underscores between digits, and words for the infinities and for not a
number are all accepted.

## Main definitions

* `NumeralLayout`: Where positional notation ends and how exponents look.
* `Binary64.numeral`: The shortest numeral that reads back.
* `Binary64.display`: Integers in full, all other numbers as their numeral.
* `Numeral.read?`: The number a text stands for.
-/

namespace TextGrammar

/-- The choices left open by a list of significant digits: numbers whose leading
    exponent lies from `positionalFrom` up to but not including
    `scientificFrom` are written positionally, and the exponents of the others
    have at least `exponentWidth` digits. -/
structure NumeralLayout where
  positionalFrom : Int
  scientificFrom : Int
  exponentWidth : Nat

/-- Numerals are positional from a ten-thousandth up to `10 ^ 16`, and an
    exponent has a sign and at least two digits. -/
def NumeralLayout.standard : NumeralLayout := ⟨-4, 16, 2⟩

namespace Decimal

/-- The significant digits without trailing zeros, and the exponent of the last
    of them. -/
def significant (d : Decimal) : List Char × Int :=
  let digits := Nat.toDigits 10 d.digits
  let kept := Text.dropEndWhile (· == '0') digits
  (kept, d.exponent + (digits.length - kept.length : Nat))

/-- Digits with a decimal point: the last digit counts `10 ^ exponent`, and at
    least one digit stands on either side of the point. -/
def positional (digits : List Char) (exponent : Int) : List Char :=
  let point := digits.length + exponent
  if 0 ≤ exponent then digits ++ List.replicate exponent.toNat '0' ++ ['.', '0']
  else if 0 < point then digits.take point.toNat ++ '.' :: digits.drop point.toNat
  else '0' :: '.' :: List.replicate (-point).toNat '0' ++ digits

/-- Digits with a power of ten: one digit before the point, and no point when
    there are no others. -/
def scientific (width : Nat) (digits : List Char) (leading : Int) : List Char :=
  let power := Nat.toDigits 10 leading.natAbs
  let mantissa := match digits with
    | [] => ['0']
    | [d] => [d]
    | d :: rest => d :: '.' :: rest
  mantissa ++ 'e' :: (if leading < 0 then '-' else '+') ::
    List.replicate (width - power.length) '0' ++ power

/-- A positive numeral in the given layout. -/
def layOut (layout : NumeralLayout) (d : Decimal) : List Char :=
  let (digits, exponent) := d.significant
  let leading := digits.length - 1 + exponent
  if layout.positionalFrom ≤ leading ∧ leading < layout.scientificFrom then
    positional digits exponent
  else
    scientific layout.exponentWidth digits leading

end Decimal

namespace Binary64

/-- A minus sign for a negative number. -/
def signText (negative : Bool) : List Char := if negative then ['-'] else []

/-- The numeral of a number, as characters. -/
def numeralChars : Binary64 → List Char
  | .nan _ => ['n', 'a', 'n']
  | .infinity n => signText n ++ ['i', 'n', 'f']
  | .finite n u _ =>
    signText n ++
      (if u = 0 then ['0', '.', '0']
       else (Decimal.shortest u).layOut NumeralLayout.standard)

/-- The numeral with the fewest digits that reads back as the number. It always
    shows a fraction or an exponent. -/
def numeral (x : Binary64) : String := String.ofList x.numeralChars

/-- The form a number takes in generated text: an integer is written with all
    its digits and no fraction, which leaves zero without a sign, and any other
    number as its numeral. -/
def display (x : Binary64) : String :=
  match x.toInt? with
  -- Both zeros are the integer zero, so the sign is lost here.
  | some i => toString i
  | none => x.numeral

end Binary64

namespace Numeral

/-- The white space allowed around a numeral: all but the four separators
    U+001C to U+001F. -/
def isPadding (c : Char) : Bool :=
  Text.isBlank c && !(0x1C ≤ c.toNat && c.toNat ≤ 0x1F)

/-- The most digits that an integer may have where it is read from a text. -/
def integerDigitLimit : Nat := 4300

/-- A digit of any script as the ASCII digit of the same value, and any other
    character as it is. -/
def toPlainDigit (c : Char) : Char :=
  match Text.digitValue? c with
  | some d => Nat.digitChar d
  | none => c

/-- The text without its underscores, each of which must stand between two
    digits. The first argument says whether a digit came just before. -/
def dropUnderscores? : Bool → List Char → Option (List Char)
  | _, [] => some []
  -- The digit behind the underscore is taken with it, so that it cannot be one more
  -- underscore.
  | afterDigit, '_' :: c :: rest =>
    if afterDigit && c.isDigit then (dropUnderscores? true rest).map (c :: ·) else none
  | _, ['_'] => none
  | _, c :: rest => (dropUnderscores? c.isDigit rest).map (c :: ·)

/-- A sign at the front, and what follows it. The flag holds of a minus. -/
def splitSign : List Char → Bool × List Char
  | '-' :: rest => (true, rest)
  | '+' :: rest => (false, rest)
  | cs => (false, cs)

/-- The exponent at the end of a numeral: nothing at all, or an `e` in either
    case, an optional sign and at least one digit. -/
def readExponent? : List Char → Option Int
  | [] => some 0
  | e :: rest =>
    if e == 'e' || e == 'E' then
      let (negative, digits) := splitSign rest
      -- What is not a digit here has no place in a numeral at all.
      if digits.isEmpty || !digits.all Char.isDigit then none
      else
        let size : Int := Nat.ofDigitChars 10 digits 0
        some (if negative then -size else size)
    else none

/-- An unsigned decimal numeral: digits with at most one point among or around
    them, at least one digit, and an optional exponent. -/
def readDecimal? (cs : List Char) : Option Decimal :=
  let whole := cs.takeWhile Char.isDigit
  let rest := cs.dropWhile Char.isDigit
  let (fraction, rest) := match rest with
    | '.' :: more => (more.takeWhile Char.isDigit, more.dropWhile Char.isDigit)
    | _ => ([], rest)
  -- A point alone is no numeral, with or without an exponent.
  if whole.isEmpty && fraction.isEmpty then none
  else
    (readExponent? rest).map fun exponent =>
      ⟨Nat.ofDigitChars 10 (whole ++ fraction) 0, exponent - fraction.length⟩

/-- The words for numbers without digits, whatever their case. -/
def readWord? (negative : Bool) (cs : List Char) : Option Binary64 :=
  let word := String.ofList (cs.map Char.toLower)
  if word == "inf" || word == "infinity" then some (.infinity negative)
  else if word == "nan" then some .nan
  else none

/-- The number that an unpadded text of ASCII digits stands for. -/
def readPlain? (cs : List Char) : Option Binary64 :=
  let (negative, rest) := splitSign cs
  match readWord? negative rest with
  | some x => some x
  | none => (readDecimal? rest).map (Binary64.ofDecimal negative)

/-- The number a text stands for, when it stands for one. -/
def readChars? (cs : List Char) : Option Binary64 :=
  match dropUnderscores? false ((Text.trim isPadding cs).map toPlainDigit) with
  | some plain => readPlain? plain
  | none => none

/-- The number a text stands for, when it stands for one. -/
def read? (text : String) : Option Binary64 := readChars? text.toList

end Numeral

end TextGrammar
