import TextGrammar.Number.Numeral

/-!
# Number Words

How numbers are spelled in running text.

Numbers up to nine are written as words and larger ones as figures. Ordinals
take the suffix that their last two digits ask for. Only natural numbers have
either; every other number keeps its display form.

## Main definitions

* `ordinalSuffix`: The suffix for the digits of a natural number.
* `withOrdinalSuffix`: Figures with a suffix, as in `101st`.
* `ordinal`: `first` to `ninth`, then figures with a suffix.
* `cardinal`: `one` to `nine`, then figures.
-/

namespace TextGrammar

namespace NumberWords

/-- The suffix for a natural number written in digits, which are given from the
    last one on. A one in the tens place makes it `th` whatever the last digit. -/
def ordinalSuffix : List Char → String
  | _ :: '1' :: _ => "th"
  | '1' :: _ => "st"
  | '2' :: _ => "nd"
  | '3' :: _ => "rd"
  | _ => "th"

/-- A natural number in figures with its ordinal suffix. -/
def withOrdinalSuffix (x : Binary64) : String :=
  match x.toInt? with
  | some i =>
    if i < 0 then x.display else x.display ++ ordinalSuffix x.display.toList.reverse
  | none => x.display

/-- The words for the ordinals below ten. Zero has none and keeps its figure. -/
def ordinalWords : List String :=
  ["0th", "first", "second", "third", "fourth", "fifth", "sixth", "seventh", "eighth", "ninth"]

/-- The words for the cardinals below ten. Zero has none and keeps its figure. -/
def cardinalWords : List String :=
  ["0", "one", "two", "three", "four", "five", "six", "seven", "eight", "nine"]

/-- The word for a number in a list of words for zero, one and so on. -/
def wordFor? (words : List String) (x : Binary64) : Option String :=
  match x.toInt? with
  | some (.ofNat n) => words[n]?
  | _ => none

/-- The ordinal of a number: a word below ten, else figures with a suffix. -/
def ordinal (x : Binary64) : String :=
  match wordFor? ordinalWords x with
  | some word => word
  | none => withOrdinalSuffix x

/-- The cardinal of a number: a word below ten, else figures. -/
def cardinal (x : Binary64) : String :=
  match wordFor? cardinalWords x with
  | some word => word
  | none => x.display

end NumberWords

end TextGrammar
