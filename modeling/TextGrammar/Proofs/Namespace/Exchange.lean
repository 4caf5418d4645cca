import TextGrammar.Proofs.Namespace.History

/-!
# Exchange with Plain Values

That a namespace survives the way through plain values and back.

The plain value of a datum says which datum it came from: truth values are kept apart from
numbers, numbers are handed over as the doubles that they are, and nested entries become a
mapping in their order. So the way back gives the very same datum, as long as no level has a
name twice, because a mapping that is stored writes its entries one after the other.

No level ever has a name twice. What is stored is made from a value, and every mapping in
it is written entry by entry, at whatever depth it stands.

## Main definitions

* `Datum.parts`: A datum and all data in it, at any depth.
* `Datum.Throughout`: All parts of a datum have a property.
* `Datum.HasDistinctKeys`: No level has a name twice.

## Theorems

* `Datum.nestedInduction`: Induction over nested data.
* `Datum.ofValue?_toValue`: The plain value of a datum gives the datum back.
* `Datum.hasDistinctKeys_of_ofValue?`: What is stored has no name twice at any level.
* `Namespace.hasDistinctKeys_of_ofPairs?`: Nor has a namespace that is filled with values.
* `Namespace.ofPairs?_toPairs`: A namespace comes back from its plain values.
-/

namespace TextGrammar

theorem Entries.mem_keys_of_mem {α : Type} {es : Entries α} {key : String} {value : α}
    (h : (key, value) ∈ es) : key ∈ es.keys :=
  List.mem_map_of_mem (f := Prod.fst) h

theorem Entries.exists_of_mem_keys {α : Type} {es : Entries α} {key : String}
    (h : key ∈ es.keys) : ∃ value, (key, value) ∈ es := by
  rcases List.mem_map.1 h with ⟨⟨_, value⟩, hmem, rfl⟩
  exact ⟨value, hmem⟩

/-- What stands in the entries after a write is the new value or stood there before. -/
theorem Entries.mem_insert {α : Type} {es : Entries α} {key : String} {value : α}
    {entry : String × α} (h : entry ∈ es.insert key value) :
    entry = (key, value) ∨ entry ∈ es := by
  induction es with
  | nil => exact Or.inl (List.mem_singleton.1 h)
  | cons e rest ih =>
      rcases e with ⟨k, v⟩
      rw [insert] at h
      split at h
      · rename_i hk
        rcases List.mem_cons.1 h with rfl | hrest
        · exact Or.inl (hk ▸ rfl)
        · exact Or.inr (List.mem_cons_of_mem _ hrest)
      · rcases List.mem_cons.1 h with rfl | hrest
        · exact Or.inr List.mem_cons_self
        · exact (ih hrest).imp_right (List.mem_cons_of_mem _)

/-- Writing entries with distinct keys one after the other gives the entries. -/
theorem Entries.ofList_of_nodup {α : Type} {es : Entries α} (h : es.keys.Nodup) :
    ofList es = es := by
  have hkeys : (keys ([] ++ es)).Nodup := h
  exact foldl_insert_eq_append hkeys

namespace Datum

/-- Induction over data in which the entries of a level are data themselves. -/
@[elab_as_elim]
theorem nestedInduction {motive : Datum → Prop} (number : ∀ x, motive (.number x))
    (text : ∀ s, motive (.text s)) (boolean : ∀ b, motive (.boolean b))
    (nested : ∀ es : Entries Datum, (∀ entry ∈ es, motive entry.2) → motive (.nested es))
    (d : Datum) : motive d :=
  @Datum.rec motive (fun es => ∀ entry ∈ es, motive entry.2) (fun entry => motive entry.2)
    number text boolean nested
    (fun _ hnil => absurd hnil List.not_mem_nil)
    (fun _ _ hfirst hrest _ hmem => (List.mem_cons.1 hmem).elim (fun heq => heq ▸ hfirst)
      (hrest _))
    (fun _ _ hsecond => hsecond) d

mutual

/-- A datum and all data in it, at any depth. -/
def parts : Datum → List Datum
  | .nested es => .nested es :: partsOfEntries es
  | d => [d]

/-- The parts of the data in entries. -/
def partsOfEntries : List (String × Datum) → List Datum
  | [] => []
  | (_, d) :: rest => parts d ++ partsOfEntries rest

end

theorem partsOfEntries_eq_flatMap (es : Entries Datum) :
    partsOfEntries es = es.flatMap fun entry => entry.2.parts := by
  induction es with
  | nil => rfl
  | cons entry rest ih => rw [partsOfEntries, ih, List.flatMap_cons]

theorem mem_partsOfEntries (es : Entries Datum) (part : Datum) :
    part ∈ partsOfEntries es ↔ ∃ entry ∈ es, part ∈ entry.2.parts := by
  rw [partsOfEntries_eq_flatMap, List.mem_flatMap]

/-- All parts of a datum have a property. -/
def Throughout (P : Datum → Prop) (d : Datum) : Prop := ∀ part ∈ d.parts, P part

instance (P : Datum → Prop) [DecidablePred P] (d : Datum) : Decidable (d.Throughout P) :=
  inferInstanceAs (Decidable (∀ part ∈ d.parts, P part))

theorem throughout_nested_iff {P : Datum → Prop} {es : Entries Datum} :
    Throughout P (.nested es) ↔ P (.nested es) ∧ ∀ entry ∈ es, entry.2.Throughout P := by
  rw [Throughout, parts, List.forall_mem_cons]
  refine and_congr_right fun _ => ?_
  constructor
  · exact fun h entry hentry part hpart =>
      h part ((mem_partsOfEntries es part).2 ⟨entry, hentry, hpart⟩)
  · intro h part hpart
    rcases (mem_partsOfEntries es part).1 hpart with ⟨entry, hentry, hin⟩
    exact h entry hentry part hin

/-- The names of a datum are distinct, if it has names. -/
def KeysDistinct : Datum → Prop
  | .nested es => (Entries.keys es).Nodup
  | _ => True

instance : DecidablePred KeysDistinct
  | .nested es => inferInstanceAs (Decidable (Entries.keys es).Nodup)
  | .number _ | .text _ | .boolean _ => inferInstanceAs (Decidable True)

/-- No level of a datum has a name twice. -/
def HasDistinctKeys (d : Datum) : Prop := d.Throughout KeysDistinct

instance (d : Datum) : Decidable d.HasDistinctKeys :=
  inferInstanceAs (Decidable (d.Throughout KeysDistinct))

theorem hasDistinctKeys_nested_iff {es : Entries Datum} :
    HasDistinctKeys (.nested es) ↔ es.keys.Nodup ∧ ∀ entry ∈ es, entry.2.HasDistinctKeys :=
  throughout_nested_iff

/-- The plain values of entries give the entries back, if each of them does. -/
theorem ofPairs?_toPairs {es : Entries Datum}
    (h : ∀ entry ∈ es, ofValue? entry.2.toValue = .ok entry.2) :
    ofPairs? (toPairs es) = .ok es := by
  induction es with
  | nil => rfl
  | cons entry rest ih =>
      rcases entry with ⟨key, d⟩
      have hfirst : ofValue? d.toValue = .ok d := h (key, d) List.mem_cons_self
      rw [toPairs, ofPairs?, hfirst, ih fun other hother => h other (List.mem_cons_of_mem _ hother)]

/-- The plain value of a datum gives the datum back. -/
theorem ofValue?_toValue (d : Datum) (h : d.HasDistinctKeys) : ofValue? d.toValue = .ok d := by
  induction d using nestedInduction with
  | number x => rfl
  | text s => rfl
  | boolean b => rfl
  | nested es ih =>
      rcases hasDistinctKeys_nested_iff.1 h with ⟨hkeys, hentries⟩
      have hpairs := ofPairs?_toPairs fun entry hentry => ih entry hentry (hentries entry hentry)
      have hwritten := Entries.ofList_of_nodup hkeys
      rw [toValue, ofValue?, hpairs]
      exact congrArg (fun es => Except.ok (Datum.nested es)) hwritten

/-- Writing an entry keeps the names of all levels distinct. -/
theorem HasDistinctKeys.insert {es : Entries Datum} (h : HasDistinctKeys (.nested es))
    (key : String) {d : Datum} (hd : d.HasDistinctKeys) :
    HasDistinctKeys (.nested (Entries.insert es key d)) := by
  rcases hasDistinctKeys_nested_iff.1 h with ⟨hkeys, hentries⟩
  refine hasDistinctKeys_nested_iff.2 ⟨Entries.nodup_keys_insert _ _ _ hkeys, ?_⟩
  intro entry hentry
  rcases Entries.mem_insert hentry with rfl | hold
  · exact hd
  · exact hentries entry hold

/-- So does writing entries one after the other. -/
theorem HasDistinctKeys.foldl_insert {front es : Entries Datum}
    (h : HasDistinctKeys (.nested front)) (hes : ∀ entry ∈ es, entry.2.HasDistinctKeys) :
    HasDistinctKeys (.nested
      (es.foldl (fun written entry => Entries.insert written entry.1 entry.2) front)) := by
  induction es generalizing front with
  | nil => exact h
  | cons entry rest ih =>
      exact ih (h.insert entry.1 (hes entry List.mem_cons_self)) fun other hother =>
        hes other (List.mem_cons_of_mem _ hother)

theorem hasDistinctKeys_ofList {es : Entries Datum} (h : ∀ entry ∈ es, entry.2.HasDistinctKeys) :
    HasDistinctKeys (.nested (Entries.ofList es)) :=
  HasDistinctKeys.foldl_insert
    (hasDistinctKeys_nested_iff.2 ⟨List.nodup_nil, List.forall_mem_nil _⟩) h

mutual

/-- What is stored has no name twice at any level. -/
theorem hasDistinctKeys_of_ofValue? (v : Value) {d : Datum} (h : ofValue? v = .ok d) :
    d.HasDistinctKeys := by
  have hleaf : ∀ {leaf : Datum}, leaf.parts = [leaf] → leaf.KeysDistinct →
      leaf.HasDistinctKeys := by
    intro leaf hparts hleaf part hpart
    rw [hparts, List.mem_singleton] at hpart
    exact hpart ▸ hleaf
  -- Only a mapping has keys. They are put one after the other, so that a later one replaces an
  -- earlier one of the same name.
  cases v with
  | null => cases h
  | sequence items => cases h
  | boolean b =>
      cases h
      exact hleaf rfl trivial
  | text s =>
      cases h
      exact hleaf rfl trivial
  | number q =>
      rw [ofValue?] at h
      split at h
      · cases h
        exact hleaf rfl trivial
      · cases h
  | mapping es =>
      rw [ofValue?] at h
      split at h
      · rename_i ds hds
        cases h
        exact hasDistinctKeys_ofList (hasDistinctKeys_of_ofPairs? es hds)
      · cases h

/-- The same of the data for a list of pairs. -/
theorem hasDistinctKeys_of_ofPairs? (pairs : List (String × Value)) {es : Entries Datum}
    (h : ofPairs? pairs = .ok es) : ∀ entry ∈ es, entry.2.HasDistinctKeys := by
  cases pairs with
  | nil =>
      cases h
      exact List.forall_mem_nil _
  | cons pair rest =>
      rcases pair with ⟨key, v⟩
      rw [ofPairs?] at h
      split at h
      · cases h
      · rename_i d hd
        split at h
        · cases h
        · rename_i ds hds
          cases h
          exact List.forall_mem_cons.2 ⟨hasDistinctKeys_of_ofValue? v hd,
            hasDistinctKeys_of_ofPairs? rest hds⟩

end

end Datum

namespace Namespace

/-- A namespace is filled with the data of the values, written one after the other. -/
theorem fill?_eq (ns : Namespace) (pairs : List (String × Value)) :
    ns.fill? pairs = (Datum.ofPairs? pairs).map fun es =>
      es.foldl (fun written entry => written.put entry.1 entry.2) ns := by
  induction pairs generalizing ns with
  | nil => rfl
  | cons pair rest ih =>
      rcases pair with ⟨key, v⟩
      rw [fill?, set?, Datum.ofPairs?]
      cases Datum.ofValue? v with
      | error e => rfl
      | ok d =>
          dsimp only
          rw [ih]
          cases Datum.ofPairs? rest with
          | error e => rfl
          | ok es => rfl

theorem ofPairs?_eq (pairs : List (String × Value)) :
    ofPairs? pairs = (Datum.ofPairs? pairs).map ofEntries := by
  rw [ofPairs?, fill?_eq]
  exact congrArg (Except.map · (Datum.ofPairs? pairs))
    (funext fun es => Namespace.ext (entries_foldl_put es empty))

/-- A namespace that is filled with values has no name twice at any level. -/
theorem hasDistinctKeys_of_ofPairs? {pairs : List (String × Value)} {ns : Namespace}
    (h : ofPairs? pairs = .ok ns) : ns.toDatum.HasDistinctKeys := by
  rw [ofPairs?_eq] at h
  cases hes : Datum.ofPairs? pairs with
  | error e =>
      rw [hes] at h
      cases h
  | ok es =>
      rw [hes] at h
      cases h
      exact Datum.hasDistinctKeys_ofList (Datum.hasDistinctKeys_of_ofPairs? pairs hes)

/-- A namespace comes back from its plain values, entry by entry and in its order. -/
theorem ofPairs?_toPairs {ns : Namespace} (h : ns.toDatum.HasDistinctKeys) :
    ofPairs? ns.toPairs = .ok ns := by
  have hentries := (Datum.hasDistinctKeys_nested_iff.1 h).2
  have hpairs : Datum.ofPairs? ns.toPairs = .ok ns.entries :=
    Datum.ofPairs?_toPairs fun entry hentry => Datum.ofValue?_toValue _ (hentries entry hentry)
  have hwritten : ofEntries ns.entries = ns := Namespace.ext (Entries.ofList_of_nodup ns.nodup)
  rw [ofPairs?_eq, hpairs]
  exact congrArg Except.ok hwritten

end Namespace

end TextGrammar
