import TextGrammar.Proofs.Expression.Tree
import TextGrammar.Proofs.Namespace.Equality

/-!
# The Identity of Operands

That a datum is equal to itself wherever an expression finds it twice.

By value, not a number is unequal to everything. An expression compares what its operands
are before it compares what they say, and two operands that were looked up under one name are
one datum. So they are equal even if no number in them has a value. This is a matter of
where the operands come from and cannot be read off their values: the quotient of zero by
zero is a constant, which is the same object every time, while each difference of infinities
is an object of its own.

An operand carries the name under which it was found for that reason. Nothing in it is fresh
any more, at any depth, and what is not fresh can be met twice.

## Theorems

* `Datum.throughout_notFresh_under`: Nothing that was found under a name is fresh.
* `Datum.equal_under_self`: What was found under a name is equal to itself.
* `Expression.evaluate_get_get_equal`: A name compared with itself gives true.
-/

namespace TextGrammar

namespace Datum

variable (name : String)

theorem entriesUnder_eq_map (es : Entries Datum) :
    entriesUnder name es = es.map fun entry => (entry.1, entry.2.under name) := by
  induction es with
  | nil => rfl
  | cons entry rest ih => rw [entriesUnder, ih, List.map_cons]

theorem keys_entriesUnder (es : Entries Datum) :
    Entries.keys (entriesUnder name es) = es.keys := by
  rw [entriesUnder_eq_map, Entries.keys, List.map_map]
  rfl

/-- What holds of all data that were found under a name holds of the entries of a level. -/
theorem forall_mem_entriesUnder {P : Datum → Prop} {es : Entries Datum}
    (h : ∀ entry ∈ es, P (entry.2.under name)) :
    ∀ entry ∈ entriesUnder name es, P entry.2 := by
  rw [entriesUnder_eq_map]
  exact List.forall_mem_map.2 h

/-- The name says which object it is, so nothing that was found under one is fresh. -/
theorem throughout_notFresh_under (d : Datum) : (d.under name).Throughout NotFresh := by
  induction d using nestedInduction with
  | number x =>
      refine List.forall_mem_singleton.2 ?_
      cases x with
      | nan object => cases object <;> nofun
      | infinity negative => nofun
      | finite negative units valid => nofun
  | text s => exact List.forall_mem_singleton.2 trivial
  | boolean b => exact List.forall_mem_singleton.2 trivial
  | nested es ih => exact throughout_nested_iff.2 ⟨trivial, forall_mem_entriesUnder name ih⟩

/-- Names stay where they are. -/
theorem HasDistinctKeys.under {d : Datum} (h : d.HasDistinctKeys) :
    (d.under name).HasDistinctKeys := by
  induction d using nestedInduction with
  | number x => exact List.forall_mem_singleton.2 trivial
  | text s => exact List.forall_mem_singleton.2 trivial
  | boolean b => exact List.forall_mem_singleton.2 trivial
  | nested es ih =>
      rcases hasDistinctKeys_nested_iff.1 h with ⟨hkeys, hin⟩
      refine hasDistinctKeys_nested_iff.2 ⟨?_, forall_mem_entriesUnder name fun entry hentry =>
        ih entry hentry (hin entry hentry)⟩
      rw [keys_entriesUnder]
      exact hkeys

/-- What was found under a name is equal to itself, whatever is in it. -/
theorem equal_under_self {d : Datum} (h : d.HasDistinctKeys) :
    (d.under name).equal (d.under name) = true := by
  have hkeys := h.under name
  exact (equal_iff_alike hkeys hkeys).2
    (.refl_of_notFresh hkeys (throughout_notFresh_under name d))

end Datum

namespace Expression

/-- A name compared with itself gives true in every namespace: what it leads to is one
    datum, and if it leads nowhere, missing is equal to missing. -/
theorem evaluate_get_get_equal (ns : Namespace)
    (hns : ∀ entry ∈ ns.entries, entry.2.HasDistinctKeys) (name : String) :
    evaluate ⟨[.get name, .get name, .binary .equal]⟩ ns = .ok (some (.boolean true)) := by
  have hsame : Datum.equal? (ns.operand? name) (ns.operand? name) = true := by
    rw [Namespace.operand?]
    cases hd : ns.get? name with
    | none => rfl
    | some d => exact Datum.equal_under_self name (hns _ (Entries.mem_of_find? hd))
  exact congrArg (fun b => Except.ok (some (Datum.boolean b))) hsame

-- Zero divided by zero twice gives one constant, and infinity less infinity two objects.
example :
    evaluate ⟨[.literal (.number 0), .literal (.number 0), .binary .divide,
      .literal (.number 0), .literal (.number 0), .binary .divide, .binary .equal]⟩ .empty =
        .ok (some (.boolean true)) ∧
    evaluate ⟨[.literal (.number (.infinity false)), .literal (.number (.infinity false)),
      .binary .subtract, .literal (.number (.infinity false)),
      .literal (.number (.infinity false)), .binary .subtract, .binary .equal]⟩ .empty =
        .ok (some (.boolean false)) :=
  ⟨rfl, rfl⟩

end Expression

end TextGrammar
