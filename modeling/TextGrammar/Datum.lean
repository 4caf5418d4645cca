import TextGrammar.Value

/-!
# Data

The typed values that a namespace holds, and their equality.

Equality ignores the order of nested entries and nothing else: two data of
different types are never equal, and numbers are compared by value. Not a
number has no value to be compared by, so there equality is that of objects:
one object is equal to itself, wherever it stands, and to no other.

Data are followed to whatever depth they have. An interpreter that allows for a
limited number of nested calls gives up on data that are nested too deeply, or
that hold themselves, in equality, in text and in plain values alike; such data
are left out here.

## Main definitions

* `Datum`: A number, a text, a truth value or nested entries.
* `Datum.Kind`: The type of a datum.
* `Datum.isTrue`: The truth value a datum counts as.
* `Datum.toText`: A datum as text.
* `Datum.equal`: Equality of data.
* `Datum.under`: A datum as it is found under a name.
* `StoreError`: Why a value cannot be stored.
* `Datum.ofValue?`: The datum for a plain value.
* `Datum.toValue`: The plain value of a datum.
-/

namespace TextGrammar

/-- A typed value. -/
inductive Datum where
  | number (x : Binary64)
  | text (s : String)
  | boolean (b : Bool)
  | nested (entries : List (String × Datum))
deriving Inhabited

/-- Why a value cannot be stored: it is of a kind without a datum, or an integer
    beyond the largest number. -/
inductive StoreError where
  | unstorable (kind : String)
  | tooLarge
deriving DecidableEq

/-- The text of the error. -/
def StoreError.message : StoreError → String
  | .unstorable kind => "Cannot store " ++ kind ++ " in a namespace"
  | .tooLarge => "int too large to convert to float"

namespace Datum

/-- The types of data. -/
inductive Kind where
  | number
  | text
  | boolean
  | nested
deriving DecidableEq

/-- The name of a type. -/
def Kind.name : Kind → String
  | .number => "Number"
  | .text => "Text"
  | .boolean => "Boolean"
  | .nested => "Namespace"

/-- The type of a datum. -/
def kind : Datum → Kind
  | .number _ => .number
  | .text _ => .text
  | .boolean _ => .boolean
  | .nested _ => .nested

/-- The truth value a datum counts as: zero, the empty text, false and the empty
    namespace are false. -/
def isTrue : Datum → Bool
  | .number x => x.isNonzero
  | .text s => s != ""
  | .boolean b => b
  | .nested es => !es.isEmpty

mutual

/-- A datum as text. Nested entries take a line each. -/
def toText : Datum → String
  | .number x => x.display
  | .text s => s
  | .boolean b => if b then "true" else "false"
  | .nested es => layOut "" es

/-- Entries as text, each on a line of its own behind the given indent. -/
def layOut (indent : String) : List (String × Datum) → String
  | [] => ""
  | (k, d) :: rest => indent ++ k ++ ": " ++ toText d ++ "\n" ++ layOut indent rest

end

mutual

/-- Equality of data. -/
def equal : Datum → Datum → Bool
  | .number x, .number y => x.equal y || x.isSameNan y
  | .text s, .text t => s == t
  | .boolean a, .boolean b => a == b
  | .nested es, .nested fs => es.length == fs.length && covered es fs
  | _, _ => false

/-- Whether all entries of the first list are in the second, with equal data. -/
def covered : List (String × Datum) → List (String × Datum) → Bool
  | [], _ => true
  | (k, d) :: rest, fs =>
    (match Entries.find? fs k with
      | some e => equal d e
      | none => false) && covered rest fs

end

mutual

/-- A datum as it is found under a name: fresh objects in it are those that the name
    leads to. Two data found under one name are one datum, so equality meets the same
    objects on both sides of it. -/
def under (name : String) : Datum → Datum
  | .number x => .number (x.under name)
  | .text s => .text s
  | .boolean b => .boolean b
  | .nested es => .nested (entriesUnder name es)

/-- Entries as they are found under a name that leads to them. -/
def entriesUnder (name : String) : List (String × Datum) → List (String × Datum)
  | [] => []
  | (k, d) :: rest => (k, under name d) :: entriesUnder name rest

end

/-- Equality where a datum may be missing: missing equals only missing. -/
def equal? : Option Datum → Option Datum → Bool
  | none, none => true
  | some d, some e => d.equal e
  | _, _ => false

mutual

/-- The datum for a value. Nothing and sequences have none, at any depth. -/
def ofValue? : Value → Except StoreError Datum
  | .null => .error (.unstorable Value.null.kind)
  | .boolean b => .ok (.boolean b)
  | .number q =>
    match q.toBinary64? with
    | some x => .ok (.number x)
    | none => .error .tooLarge
  | .text s => .ok (.text s)
  | .mapping es =>
    match ofPairs? es with
    | .ok ds => .ok (.nested (Entries.ofList ds))
    | .error e => .error e
  | .sequence vs => .error (.unstorable (Value.sequence vs).kind)

/-- The data for the values of a list of pairs, in order. The first value that
    cannot be stored decides the error. -/
def ofPairs? : List (String × Value) → Except StoreError (List (String × Datum))
  | [] => .ok []
  | (k, v) :: rest =>
    match ofValue? v with
    | .error e => .error e
    | .ok d =>
      match ofPairs? rest with
      | .error e => .error e
      | .ok ds => .ok ((k, d) :: ds)

end

mutual

/-- The plain value of a datum. -/
def toValue : Datum → Value
  | .number x => .number (.real x)
  | .text s => .text s
  | .boolean b => .boolean b
  | .nested es => .mapping (toPairs es)

/-- The plain values of entries. -/
def toPairs : List (String × Datum) → List (String × Value)
  | [] => []
  | (k, d) :: rest => (k, toValue d) :: toPairs rest

end

end Datum

end TextGrammar
