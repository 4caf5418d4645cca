import TextGrammar.Number.Numeral

/-!
# Command Line Options

The reading of command line arguments as options and positional arguments.

An argument that starts with a dash is an option if it names one, whole or by an
unambiguous beginning. A value can follow behind an equals sign. What looks like
a negative number or holds a space is no option, and after a double dash nothing
is.

## Main definitions

* `OptionRole`: What an option is for.
* `OptionSpec`: An option, by its names and its role.
* `ArgumentKind`: What an argument was recognised as.
* `ArgumentKind.classify`: What the arguments of a command are.
* `Recognised.ofMatch?`: The uses of options that a recognised argument stands for.
* `readInteger?`: The integer that an argument stands for.
-/

namespace TextGrammar

namespace CommandLine

/-- What an option is for. -/
inductive OptionRole where
  | help
  | verbose
  | root
  | assignment
  | seed
  | count
  | maxDepth
  | showData
deriving DecidableEq

/-- Whether the options of a role take a value. -/
def OptionRole.takesValue : OptionRole → Bool
  | .help | .verbose | .showData => false
  | .root | .assignment | .seed | .count | .maxDepth => true

/-- An option: its names, and what it is for. -/
structure OptionSpec where
  names : List String
  role : OptionRole
deriving DecidableEq

/-- An option that was recognised: what it is for, whether it was named by a letter,
    and the value that the same argument gives it. -/
structure OptionMatch where
  role : OptionRole
  isLetter : Bool
  inlineValue : Option (List Char)
deriving DecidableEq

/-- What an argument was recognised as. -/
inductive ArgumentKind where
  | plain
  | dashes
  | known (m : OptionMatch)
  | unknown
deriving DecidableEq

/-- The option with a given name. -/
def findOption? (specs : List OptionSpec) (name : List Char) : Option OptionSpec :=
  specs.find? fun spec => spec.names.contains (String.ofList name)

/-- A text cut at its first equals sign. Without one there is no second part. -/
def cutAtEquals (cs : List Char) : List Char × Option (List Char) :=
  (cs.takeWhile (· != '='), (cs.dropWhile (· != '=')).tail?)

/-- The options whose names begin with the given characters. -/
def byBeginning (specs : List OptionSpec) (beginning : List Char) (value : Option (List Char)) :
    List OptionMatch :=
  specs.flatMap fun spec =>
    (spec.names.filter fun name => beginning.isPrefixOf name.toList).map fun _ =>
      ⟨spec.role, false, value⟩

/-- The options that an argument may be short for. A long one is short for those
    that begin with it; one with a single dash is a letter with its value right
    behind it. -/
def abbreviated (specs : List OptionSpec) (arg : List Char) : List OptionMatch :=
  match arg with
  | '-' :: '-' :: _ => byBeginning specs (cutAtEquals arg).1 (cutAtEquals arg).2
  | '-' :: c :: rest =>
    let short := String.ofList ['-', c]
    specs.flatMap fun spec => spec.names.filterMap fun name =>
      if name == short then some ⟨spec.role, true, some rest⟩
      else if arg.isPrefixOf name.toList then some ⟨spec.role, false, none⟩
      else none
  | _ => []

/-- The text without one line feed at its end. -/
def dropFinalLineFeed (cs : List Char) : List Char :=
  if cs.getLast? == some '\n' then cs.dropLast else cs

/-- Whether an argument looks like a negative number: a dash and digits, of which
    those behind a point may stand alone. A line feed may follow. -/
def looksNegative (arg : List Char) : Bool :=
  match dropFinalLineFeed arg with
  | '-' :: rest =>
    let isDigit := fun c => (Text.digitValue? c).isSome
    match rest.dropWhile isDigit with
    | [] => !rest.isEmpty
    | '.' :: fraction => !fraction.isEmpty && fraction.all isDigit
    | _ => false
  | _ => false

/-- What one argument is. It is an error if it is short for several options. -/
def ArgumentKind.of? (specs : List OptionSpec) (arg : String) : Option ArgumentKind :=
  let cs := arg.toList
  match cs with
  | '-' :: _ :: _ =>
    -- A full name comes before all that it may be short for.
    match findOption? specs (cutAtEquals cs).1 with
    | some spec =>
      some (.known ⟨spec.role, (cutAtEquals cs).1.length == 2, (cutAtEquals cs).2⟩)
    | none =>
      match abbreviated specs cs with
      | [m] => some (.known m)
      | _ :: _ :: _ => none
      | [] => if looksNegative cs || cs.contains ' ' then some .plain else some .unknown
  | _ => some .plain

/-- What the arguments of a command are, or nothing if one is ambiguous. -/
def ArgumentKind.classify (specs : List OptionSpec) :
    List String → Option (List (String × ArgumentKind))
  | [] => some []
  | arg :: rest =>
    -- Behind two dashes nothing is an option any more.
    if arg == "--" then some ((arg, .dashes) :: rest.map fun a => (a, .plain))
    else
      match ArgumentKind.of? specs arg, classify specs rest with
      | some kind, some kinds => some ((arg, kind) :: kinds)
      | _, _ => none

/-- A use of an option, with its value if it takes one. -/
structure OptionUse where
  role : OptionRole
  value : String := ""
deriving DecidableEq

/-- What a recognised option stands for: uses of options, and the one that waits for
    a value in the next argument. -/
structure Recognised where
  uses : List OptionUse := []
  waiting : Option OptionRole := none
deriving DecidableEq

namespace Recognised

/-- What a letter with characters right behind it stands for. A letter that takes a
    value finds it there. Behind one that takes none, the next character has to
    name a letter of its own. -/
def ofLetters? (specs : List OptionSpec) (role : OptionRole) (behind : List Char) :
    Option Recognised :=
  match behind with
  | [] => some (if role.takesValue then { waiting := some role } else { uses := [⟨role, ""⟩] })
  | c :: rest =>
    if role.takesValue then some { uses := [⟨role, String.ofList behind⟩] }
    else
      match findOption? specs ['-', c] with
      | none => none
      | some next =>
        (ofLetters? specs next.role rest).map fun r => { r with uses := ⟨role, ""⟩ :: r.uses }

/-- What a recognised option stands for. It is an error if a value was given to an
    option that takes none, but behind a letter it is read as more letters. -/
def ofMatch? (specs : List OptionSpec) (m : OptionMatch) : Option Recognised :=
  match m.inlineValue with
  | none => ofLetters? specs m.role []
  | some value =>
    if m.role.takesValue then some { uses := [⟨m.role, String.ofList value⟩] }
    else if m.isLetter && !value.isEmpty then ofLetters? specs m.role value
    else none

end Recognised

/-- The integer that an argument stands for. It is read like a numeral, without a
    point or an exponent, and very long ones are refused. -/
def readInteger? (text : String) : Option Int :=
  let cs := (Text.trim Numeral.isPadding text.toList).map Numeral.toPlainDigit
  let (negative, rest) := Numeral.splitSign cs
  (Numeral.dropUnderscores? false rest).bind fun digits =>
    let tooLong := Numeral.integerDigitLimit < digits.length
    if digits.isEmpty || tooLong || !digits.all Char.isDigit then none
    else
      let size : Int := Nat.ofDigitChars 10 digits 0
      some (if negative then -size else size)

end CommandLine

end TextGrammar
