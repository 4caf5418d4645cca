import TextGrammar.Namespace

/-!
# Shared Nested Namespaces

Namespaces in which one nested namespace can stand under several names.

Storing the datum found under one name under another one as well does not copy
it. If it is a nested namespace, a later write into it shows under both names,
until one of them is written anew or removed.

## Main definitions

* `SharedNamespace`: A namespace, and which of its names share their datum.
* `SharedNamespace.link?`: Store the datum of one name under another.
* `SharedNamespace.setIn?`: Write into the nested namespace under a name.
-/

namespace TextGrammar

/-- A namespace together with the names that share a nested namespace. Names
    with the same number share; a name without one stands alone. -/
structure SharedNamespace where
  current : Namespace
  groups : Entries Nat
  nextGroup : Nat

namespace SharedNamespace

/-- The namespace, with nothing shared. -/
def ofNamespace (ns : Namespace) : SharedNamespace := ⟨ns, [], 0⟩

/-- Write a plain value under a name, which then shares nothing. -/
def set? (s : SharedNamespace) (key : String) (v : Value) : Except StoreError SharedNamespace :=
  match s.current.set? key v with
  | .ok ns => .ok { s with current := ns, groups := s.groups.erase key }
  | .error e => .error e

/-- Remove a name. -/
def remove (s : SharedNamespace) (key : String) : SharedNamespace :=
  { s with current := s.current.remove key, groups := s.groups.erase key }

/-- Store the datum under one name under another one too. A missing datum cannot
    be stored. -/
def link? (s : SharedNamespace) (key source : String) : Except StoreError SharedNamespace :=
  match s.current.get? source with
  | none => .error (.unstorable Value.null.kind)
  | some d =>
    let group := (s.groups.find? source).getD s.nextGroup
    .ok {
      current := s.current.put key d
      groups := (s.groups.insert source group).insert key group
      nextGroup := s.nextGroup + 1 }

/-- The names that share the datum under a name, that name included. -/
def sharers (s : SharedNamespace) (key : String) : List String :=
  match s.groups.find? key with
  | none => [key]
  | some group => (s.groups.filter fun entry => entry.2 == group).map Prod.fst

/-- Write a plain value into the nested namespace under a name. There is nothing
    to write into when the name holds anything else. -/
def setIn? (s : SharedNamespace) (outer key : String) (v : Value) :
    Except StoreError SharedNamespace :=
  match s.current.get? outer with
  | some (.nested es) =>
    match (Namespace.ofEntries es).set? key v with
    | .error e => .error e
    | .ok inner =>
      .ok { s with
        current := (s.sharers outer).foldl (fun ns name => ns.put name inner.toDatum)
          s.current }
  | _ => .ok s

end SharedNamespace

end TextGrammar
