import TextGrammar.Datum

/-!
# Namespaces

The store that a run reads and writes: data under names, in the order in which
the names arrived. A name is there once, because a write under a name that is
there changes its datum, so every namespace comes with that fact. The entries
nested in data are plain lists; what is stored has no name twice in these
either.

## Main definitions

* `Namespace`: Data under names.
* `Namespace.ofEntries`: The namespace for data under names.
* `Namespace.get?`, `Namespace.put`, `Namespace.set?`, `Namespace.remove`: Read
  a name, write a datum or a plain value under one, and remove one.
* `Namespace.ofPairs?`: The namespace filled with values in order.
* `Namespace.layOut`: The entries as text, a line each.
* `Namespace.toPairs`: The entries as plain values.
* `Namespace.equal`: Equality whatever the order of the entries.

## Theorems

* `Namespace.get?_put`, `Namespace.get?_remove`: Reading after a write and after a
  removal.
-/

namespace TextGrammar

/-- Data under names, in order. No name is there twice. -/
@[ext]
structure Namespace where
  entries : Entries Datum
  nodup : entries.keys.Nodup

namespace Namespace

/-- The namespace without entries. -/
def empty : Namespace := ⟨[], List.nodup_nil⟩

/-- The namespace that arises by writing data under names in turn. -/
def ofEntries (pairs : List (String × Datum)) : Namespace :=
  ⟨Entries.ofList pairs, Entries.nodup_keys_ofList pairs⟩

instance : Inhabited Namespace := ⟨empty⟩

/-- The names, in order. -/
def keys (ns : Namespace) : List String := ns.entries.keys

/-- The number of entries. -/
def size (ns : Namespace) : Nat := ns.entries.length

/-- Whether a name is present. -/
def contains (ns : Namespace) (key : String) : Bool := ns.entries.contains key

/-- A namespace counts as true when it has an entry. -/
def isTrue (ns : Namespace) : Bool := !ns.entries.isEmpty

/-- The datum under a name, if there is one. -/
def get? (ns : Namespace) (key : String) : Option Datum := ns.entries.find? key

/-- The datum under a name as an operand, which knows where it was found. -/
def operand? (ns : Namespace) (key : String) : Option Datum := (ns.get? key).map (Datum.under key)

/-- Write a datum under a name. -/
def put (ns : Namespace) (key : String) (d : Datum) : Namespace :=
  ⟨ns.entries.insert key d, Entries.nodup_keys_insert ns.entries key d ns.nodup⟩

/-- Remove a name. -/
def remove (ns : Namespace) (key : String) : Namespace :=
  ⟨ns.entries.erase key, Entries.nodup_keys_erase ns.entries key ns.nodup⟩

/-- Write a plain value under a name. -/
def set? (ns : Namespace) (key : String) (v : Value) : Except StoreError Namespace :=
  match Datum.ofValue? v with
  | .ok d => .ok (ns.put key d)
  | .error e => .error e

/-- Write values under names one after the other. The first one that cannot be
    stored ends it. -/
def fill? : Namespace → List (String × Value) → Except StoreError Namespace
  | ns, [] => .ok ns
  | ns, (k, v) :: rest =>
    match ns.set? k v with
    | .ok next => fill? next rest
    | .error e => .error e

/-- The namespace filled with values in order. -/
def ofPairs? (pairs : List (String × Value)) : Except StoreError Namespace := empty.fill? pairs

/-- The entries as text, each on a line of its own behind the given indent. -/
def layOut (ns : Namespace) (indent : String) : String := Datum.layOut indent ns.entries

/-- The namespace as text. -/
def toText (ns : Namespace) : String := ns.layOut ""

/-- The namespace as a datum. -/
def toDatum (ns : Namespace) : Datum := .nested ns.entries

/-- The entries as plain values. -/
def toPairs (ns : Namespace) : List (String × Value) := Datum.toPairs ns.entries

/-- Equality of namespaces: the same names with equal data, in any order. -/
def equal (a b : Namespace) : Bool := a.toDatum.equal b.toDatum

/-- The number under a name, if there is one. -/
def number? (ns : Namespace) (key : String) : Option Binary64 :=
  match ns.get? key with
  | some (.number x) => some x
  | _ => none

theorem get?_put (ns : Namespace) (key other : String) (d : Datum) :
    (ns.put key d).get? other = if key = other then some d else ns.get? other :=
  Entries.find?_insert ns.entries key other d

theorem operand?_congr {a b : Namespace} {key : String} (h : a.get? key = b.get? key) :
    a.operand? key = b.operand? key := by
  rw [operand?, operand?, h]

theorem get?_remove (ns : Namespace) (key other : String) :
    (ns.remove key).get? other = if key = other then none else ns.get? other :=
  Entries.find?_erase ns.entries key other

end Namespace

end TextGrammar
