import TextGrammar.Proofs.Namespace.Storing

/-!
# The History of a Namespace

What a namespace shows of the calls that filled it.

A call stores a plain value under a name, stores a datum as it is, or removes a name. A value
that cannot be stored changes nothing, so all calls come to a list of changes. What a name
holds is then decided by the last change of the name. Its place among the names is decided by
another one: the first change that stored something under the name after it was missing. A
name that is written again keeps its place, and one that is removed and written again has
lost it.

The names that are there at the start are taken as stored in their order, so that nothing is
special about them.

## Main definitions

* `Change`: What a call does to one name.
* `LastOf`, `ArrivesAt`: The change that decides about a datum, and the one that decides
  about a place.
* `Namespace.Follows`: The views of a namespace, told from a list of changes.
* `Edit`: A call that may change a namespace.
* `Namespace.perform`, `Namespace.performAll`: The effect of calls.
* `Edit.Refuses`: A call with a value that cannot be stored.

## Theorems

* `lastOf_concat`, `arrivesAt_concat`: What one more change makes of the two.
* `Namespace.Follows.apply`: One more change.
* `Namespace.Follows.applyAll`: A list of changes.
* `Namespace.follows_stored`: The entries at the start as changes.
* `Namespace.perform_cases`: What a call does.
* `Namespace.follows_performAll`: Any calls, of which some may be refused.
-/

namespace TextGrammar

namespace Entries

variable {α : Type}

/-- A new key is written at the end. -/
theorem insert_of_not_mem {es : Entries α} {key : String} (value : α) (h : key ∉ es.keys) :
    es.insert key value = es ++ [(key, value)] := by
  induction es with
  | nil => rfl
  | cons e rest ih =>
      rcases e with ⟨k, v⟩
      have hne : k ≠ key := fun hk => h (hk ▸ List.mem_cons_self)
      rw [insert, if_neg hne, ih fun hmem => h (List.mem_cons_of_mem _ hmem), List.cons_append]

/-- Entries under distinct keys are what arises when they are written in turn. -/
theorem foldl_insert_eq_append {front es : Entries α} (h : (keys (front ++ es)).Nodup) :
    es.foldl (fun written entry => written.insert entry.1 entry.2) front = front ++ es := by
  induction es generalizing front with
  | nil => exact (List.append_nil front).symm
  | cons e rest ih =>
      have hnew : e.1 ∉ keys front := by
        intro hmem
        unfold keys at h hmem
        rw [List.map_append] at h
        exact (List.nodup_append.1 h).2.2 _ hmem _ List.mem_cons_self rfl
      rw [List.foldl_cons, insert_of_not_mem e.2 hnew, ih, List.append_assoc]
      · rfl
      · rwa [List.append_assoc]

end Entries

/-- What is done to one name: a datum is stored under it, or it is removed. -/
inductive Change where
  | set (key : String) (d : Datum)
  | remove (key : String)

/-- The name that a change is about. -/
def Change.key : Change → String
  | .set key _ => key
  | .remove key => key

/-- The last change of its name. -/
def LastOf (changes : List Change) (change : Change) : Prop :=
  ∃ front back, changes = front ++ change :: back ∧ ∀ later ∈ back, later.key ≠ change.key

/-- The place of the change by which a name came to stay: something is stored under it that
    was not there, and it is not removed from then on. -/
def ArrivesAt (changes : List Change) (key : String) (place : Nat) : Prop :=
  ∃ front d back, changes = front ++ .set key d :: back ∧ front.length = place ∧
    (∀ e, ¬ LastOf front (.set key e)) ∧ .remove key ∉ back

section Concat

variable {changes : List Change} {last : Change}

/-- A change of a longer list is the last one, or one of those before. -/
theorem concat_eq_append_cons_iff {front back : List Change} {c : Change} :
    changes ++ [last] = front ++ c :: back ↔
      (back = [] ∧ c = last ∧ front = changes) ∨
        ∃ rest, back = rest ++ [last] ∧ changes = front ++ c :: rest := by
  constructor
  · intro h
    rcases List.eq_nil_or_concat back with rfl | ⟨rest, other, rfl⟩
    · rcases List.append_inj' h rfl with ⟨hfront, hlast⟩
      exact Or.inl ⟨rfl, (List.singleton_inj.1 hlast).symm, hfront.symm⟩
    · rw [List.concat_eq_append, ← List.cons_append, ← List.append_assoc] at h
      rcases List.append_inj' h rfl with ⟨hchanges, hlast⟩
      rw [List.concat_eq_append, List.singleton_inj.1 hlast]
      exact Or.inr ⟨rest, rfl, hchanges⟩
  · rintro (⟨rfl, rfl, rfl⟩ | ⟨rest, rfl, rfl⟩)
    · rfl
    · rw [List.append_assoc, List.cons_append]

/-- One more change is the last one of its name, and leaves the last ones of other names. -/
theorem lastOf_concat (change : Change) :
    LastOf (changes ++ [last]) change ↔
      change = last ∨ (change.key ≠ last.key ∧ LastOf changes change) := by
  constructor
  · rintro ⟨front, back, hsplit, hback⟩
    rcases concat_eq_append_cons_iff.1 hsplit with ⟨_, rfl, _⟩ | ⟨rest, rfl, rfl⟩
    · exact Or.inl rfl
    · have hlast := hback last (List.mem_append_right _ List.mem_cons_self)
      exact Or.inr ⟨hlast.symm, front, rest, rfl, fun later hlater =>
        hback later (List.mem_append_left _ hlater)⟩
  · rintro (rfl | ⟨hkey, front, back, rfl, hback⟩)
    · exact ⟨changes, [], rfl, List.forall_mem_nil _⟩
    · refine ⟨front, back ++ [last], by rw [List.append_assoc, List.cons_append], ?_⟩
      exact List.forall_mem_append.2 ⟨hback, List.forall_mem_singleton.2 hkey.symm⟩

/-- One more change of a name is the last one. -/
theorem lastOf_concat_of_key_eq {change : Change} (h : change.key = last.key) :
    LastOf (changes ++ [last]) change ↔ change = last := by
  rw [lastOf_concat]
  exact or_iff_left fun hlast => hlast.1 h

/-- A change of another name leaves the last one. -/
theorem lastOf_concat_of_key_ne {change : Change} (h : change.key ≠ last.key) :
    LastOf (changes ++ [last]) change ↔ LastOf changes change := by
  rw [lastOf_concat, or_iff_right fun heq => h (congrArg Change.key heq)]
  exact and_iff_right h

/-- One more change makes a name come if it stores something under a name that is not there.
    Names that came before stay, unless they are removed by it. -/
theorem arrivesAt_concat (key : String) (place : Nat) :
    ArrivesAt (changes ++ [last]) key place ↔
      (ArrivesAt changes key place ∧ last ≠ .remove key) ∨
        (place = changes.length ∧ (∃ d, last = .set key d) ∧
          ∀ e, ¬ LastOf changes (.set key e)) := by
  constructor
  · rintro ⟨front, d, back, hsplit, hplace, hfront, hback⟩
    rcases concat_eq_append_cons_iff.1 hsplit with ⟨_, hset, rfl⟩ | ⟨rest, rfl, rfl⟩
    · exact Or.inr ⟨hplace.symm, ⟨d, hset.symm⟩, hfront⟩
    · have hrest := fun hmem => hback (List.mem_append_left _ hmem)
      refine Or.inl ⟨⟨front, d, rest, rfl, hplace, hfront, hrest⟩, fun hremove => hback ?_⟩
      exact List.mem_append_right _ (hremove ▸ List.mem_cons_self)
  · rintro (⟨⟨front, d, back, rfl, hplace, hfront, hback⟩, hne⟩ | ⟨rfl, ⟨d, rfl⟩, hmissing⟩)
    · refine ⟨front, d, back ++ [last], by rw [List.append_assoc, List.cons_append], hplace,
        hfront, ?_⟩
      rw [List.mem_append, List.mem_singleton]
      exact fun hmem => hmem.elim hback fun heq => hne heq.symm
    · exact ⟨changes, d, [], rfl, rfl, hmissing, List.not_mem_nil⟩

/-- A name that has come stays until it is removed. -/
theorem ArrivesAt.concat {key : String} {place : Nat} (h : ArrivesAt changes key place)
    (hne : last ≠ .remove key) : ArrivesAt (changes ++ [last]) key place :=
  (arrivesAt_concat key place).2 (Or.inl ⟨h, hne⟩)

theorem ArrivesAt.lt_length {key : String} {place : Nat} (h : ArrivesAt changes key place) :
    place < changes.length := by
  rcases h with ⟨front, d, back, rfl, rfl, _, _⟩
  rw [List.length_append, List.length_cons]
  omega

end Concat

namespace Namespace

variable {ns : Namespace} {changes : List Change}

theorem size_eq_length_keys (ns : Namespace) : ns.size = ns.keys.length := by
  rw [size, keys, Entries.keys, List.length_map]

theorem contains_iff_mem_keys (ns : Namespace) (key : String) :
    ns.contains key = true ↔ key ∈ ns.keys :=
  (Entries.mem_keys_iff ns.entries key).symm

theorem isTrue_iff_keys_ne_nil (ns : Namespace) : ns.isTrue = true ↔ ns.keys ≠ [] := by
  rw [isTrue, keys, Entries.keys, Bool.not_eq_true', ← Bool.not_eq_true, List.isEmpty_iff,
    ne_eq, List.map_eq_nil_iff]

theorem mem_keys_put (ns : Namespace) (key other : String) (d : Datum) :
    other ∈ (ns.put key d).keys ↔ other ∈ ns.keys ∨ other = key := by
  rw [keys, put, Entries.keys_insert]
  split
  · rename_i hold
    exact ⟨Or.inl, fun hor => hor.elim id fun heq => heq ▸ hold⟩
  · rw [List.mem_append, List.mem_singleton]
    rfl

theorem mem_keys_remove (ns : Namespace) (key other : String) :
    other ∈ (ns.remove key).keys ↔ other ∈ ns.keys ∧ other ≠ key := by
  rw [keys, remove, Entries.keys_erase, List.mem_filter, bne_iff_ne]
  rfl

/-- The views of a namespace, told from the changes that it has undergone. It holds under a
    name what the last change of the name has stored. Its names are those that came to stay,
    in the order in which they came, and the other views go with them. -/
structure Follows (ns : Namespace) (changes : List Change) : Prop where
  nodup_keys : ns.keys.Nodup := ns.nodup
  get?_eq_some_iff : ∀ key d, ns.get? key = some d ↔ LastOf changes (.set key d)
  mem_keys_iff : ∀ key, key ∈ ns.keys ↔ ∃ place, ArrivesAt changes key place
  pairwise_keys : ns.keys.Pairwise fun a b =>
    ∀ i j, ArrivesAt changes a i → ArrivesAt changes b j → i < j
  size_eq : ns.size = ns.keys.length := ns.size_eq_length_keys
  contains_iff : ∀ key, ns.contains key = true ↔ key ∈ ns.keys := ns.contains_iff_mem_keys
  isTrue_iff : ns.isTrue = true ↔ ns.keys ≠ [] := ns.isTrue_iff_keys_ne_nil

/-- Make a change. -/
def apply (ns : Namespace) : Change → Namespace
  | .set key d => ns.put key d
  | .remove key => ns.remove key

/-- Make changes one after the other. -/
def applyAll (ns : Namespace) (changes : List Change) : Namespace := changes.foldl apply ns

theorem follows_empty : empty.Follows [] where
  get?_eq_some_iff key d := by
    refine iff_of_false nofun ?_
    rintro ⟨front, back, hsplit, _⟩
    exact absurd hsplit.symm (List.append_ne_nil_of_right_ne_nil front (List.cons_ne_nil _ _))
  mem_keys_iff key := by
    refine iff_of_false List.not_mem_nil ?_
    rintro ⟨place, hplace⟩
    exact absurd hplace.lt_length (Nat.not_lt_zero place)
  pairwise_keys := List.Pairwise.nil

/-- A name is there if the last change of it has stored something. -/
theorem Follows.mem_keys_iff_lastOf (h : ns.Follows changes) (key : String) :
    key ∈ ns.keys ↔ ∃ d, LastOf changes (.set key d) := by
  rw [keys, Entries.mem_keys_iff, Option.isSome_iff_exists]
  exact exists_congr fun d => h.get?_eq_some_iff key d

/-- A name that is there has come already, whatever is done next. -/
theorem Follows.arrivesAt_of_concat (h : ns.Follows changes) {last : Change} {key : String}
    {place : Nat} (hmem : key ∈ ns.keys) (hplace : ArrivesAt (changes ++ [last]) key place) :
    ArrivesAt changes key place := by
  rcases (arrivesAt_concat key place).1 hplace with ⟨hcame, _⟩ | ⟨_, _, hmissing⟩
  · exact hcame
  · rcases (h.mem_keys_iff_lastOf key).1 hmem with ⟨d, hd⟩
    exact absurd hd (hmissing d)

theorem Follows.pairwise_concat (h : ns.Follows changes) (last : Change) :
    ns.keys.Pairwise fun a b =>
      ∀ i j, ArrivesAt (changes ++ [last]) a i → ArrivesAt (changes ++ [last]) b j → i < j :=
  h.pairwise_keys.imp_of_mem fun ha hb hab i j hi hj =>
    hab i j (h.arrivesAt_of_concat ha hi) (h.arrivesAt_of_concat hb hj)

/-- What is stored is stored under a name that keeps its place, or behind all others. -/
theorem Follows.put (h : ns.Follows changes) (key : String) (d : Datum) :
    (ns.put key d).Follows (changes ++ [.set key d]) where
  get?_eq_some_iff other e := by
    rw [get?_put]
    by_cases hkey : key = other
    · have hsame : (Change.set other e).key = (Change.set key d).key := hkey.symm
      rw [if_pos hkey, lastOf_concat_of_key_eq hsame, hkey]
      simp only [Option.some.injEq, Change.set.injEq, true_and, eq_comm]
    · have hother : (Change.set other e).key ≠ (Change.set key d).key := Ne.symm hkey
      rw [if_neg hkey, lastOf_concat_of_key_ne hother, h.get?_eq_some_iff]
  mem_keys_iff other := by
    rw [mem_keys_put]
    have hcame : other ∈ ns.keys → ∃ place, ArrivesAt (changes ++ [.set key d]) other place := by
      intro hold
      rcases (h.mem_keys_iff other).1 hold with ⟨place, hplace⟩
      exact ⟨place, hplace.concat nofun⟩
    constructor
    · rintro (hold | rfl)
      · exact hcame hold
      · -- The name that is stored comes with this change only if it was missing.
        by_cases hold : other ∈ ns.keys
        · exact hcame hold
        · refine ⟨_, (arrivesAt_concat other _).2 (Or.inr ⟨rfl, ⟨d, rfl⟩, fun e hlast => ?_⟩)⟩
          exact hold ((h.mem_keys_iff_lastOf other).2 ⟨e, hlast⟩)
    · rintro ⟨place, hplace⟩
      rcases (arrivesAt_concat other place).1 hplace with ⟨hcame, _⟩ | ⟨_, ⟨e, heq⟩, _⟩
      · exact Or.inl ((h.mem_keys_iff other).2 ⟨place, hcame⟩)
      · cases heq
        exact Or.inr rfl
  pairwise_keys := by
    rw [keys, Namespace.put, Entries.keys_insert]
    split
    · exact h.pairwise_concat _
    · -- The new name comes last, as all others have come within the changes so far.
      rename_i hnew
      refine List.pairwise_append.2 ⟨h.pairwise_concat _, List.pairwise_singleton _ _, ?_⟩
      intro a ha b hb i j hi hj
      rw [List.mem_singleton.1 hb] at hj
      have hlt := (h.arrivesAt_of_concat ha hi).lt_length
      rcases (arrivesAt_concat key j).1 hj with ⟨hcame, _⟩ | ⟨hlast, _⟩
      · exact absurd ((h.mem_keys_iff key).2 ⟨j, hcame⟩) hnew
      · omega

/-- What is removed is gone, and the other names stay where they are. -/
theorem Follows.remove (h : ns.Follows changes) (key : String) :
    (ns.remove key).Follows (changes ++ [.remove key]) where
  get?_eq_some_iff other e := by
    rw [get?_remove]
    by_cases hkey : key = other
    · have hsame : (Change.set other e).key = (Change.remove key).key := hkey.symm
      rw [if_pos hkey, lastOf_concat_of_key_eq hsame]
      exact iff_of_false nofun nofun
    · have hother : (Change.set other e).key ≠ (Change.remove key).key := Ne.symm hkey
      rw [if_neg hkey, lastOf_concat_of_key_ne hother, h.get?_eq_some_iff]
  mem_keys_iff other := by
    rw [mem_keys_remove]
    constructor
    · rintro ⟨hold, hne⟩
      rcases (h.mem_keys_iff other).1 hold with ⟨place, hplace⟩
      refine ⟨place, hplace.concat fun heq => ?_⟩
      cases heq
      exact hne rfl
    -- A removal sets nothing, so a key that is there behind it was there before.
    · rintro ⟨place, hplace⟩
      rcases (arrivesAt_concat other place).1 hplace with ⟨hcame, hne⟩ | ⟨_, ⟨e, heq⟩, _⟩
      · exact ⟨(h.mem_keys_iff other).2 ⟨place, hcame⟩, fun heq => hne (heq ▸ rfl)⟩
      · cases heq
  pairwise_keys := by
    rw [keys, Namespace.remove, Entries.keys_erase]
    exact (h.pairwise_concat _).filter _

theorem Follows.apply (h : ns.Follows changes) (change : Change) :
    (ns.apply change).Follows (changes ++ [change]) := by
  cases change with
  | set key d => exact h.put key d
  | remove key => exact h.remove key

/-- Further changes carry on the history. -/
theorem Follows.applyAll (h : ns.Follows changes) (more : List Change) :
    (ns.applyAll more).Follows (changes ++ more) := by
  induction more generalizing ns changes with
  | nil =>
      rw [List.append_nil]
      exact h
  | cons change rest ih =>
      have hrest := ih (h.apply change)
      rw [List.append_assoc] at hrest
      exact hrest

/-- The changes that store the entries of a namespace in their order. -/
def stored (ns : Namespace) : List Change := ns.entries.map fun entry => .set entry.1 entry.2

/-- Writing entries one after the other writes them so into the list of entries. -/
theorem entries_foldl_put (es : Entries Datum) (ns : Namespace) :
    (es.foldl (fun written entry => written.put entry.1 entry.2) ns).entries =
      es.foldl (fun written entry => Entries.insert written entry.1 entry.2) ns.entries := by
  induction es generalizing ns with
  | nil => rfl
  | cons entry rest ih => exact ih (ns.put entry.1 entry.2)

/-- A namespace has arisen by storing its entries. -/
theorem follows_stored (ns : Namespace) : ns.Follows ns.stored := by
  have hstored : empty.applyAll ns.stored = ns := by
    refine Namespace.ext ?_
    rw [applyAll, stored, List.foldl_map]
    -- As names are distinct, every entry is written behind those before it.
    have hkeys : (Entries.keys ([] ++ ns.entries)).Nodup := ns.nodup
    exact (entries_foldl_put ns.entries empty).trans (Entries.foldl_insert_eq_append hkeys)
  have hfollows := follows_empty.applyAll ns.stored
  rwa [hstored] at hfollows

end Namespace

/-- A call that may change a namespace: a plain value is stored under a name, a datum is
    stored as it is, or a name is removed. -/
inductive Edit where
  | set (key : String) (v : Value)
  | put (key : String) (d : Datum)
  | remove (key : String)

/-- The change that a call comes to, unless it is refused. -/
def Edit.change? : Edit → Option Change
  | .set key v =>
    match Datum.ofValue? v with
    | .ok d => some (.set key d)
    | .error _ => none
  | .put key d => some (.set key d)
  | .remove key => some (.remove key)

/-- A call is to store a value that holds one that cannot be stored. -/
def Edit.Refuses (edit : Edit) (e : StoreError) : Prop :=
  ∃ key v part, edit = .set key v ∧ v.Holds part ∧ part.Refuses e

namespace Namespace

/-- The outcome of a call, and the namespace after it. -/
def perform (ns : Namespace) : Edit → Except StoreError Unit × Namespace
  | .set key v =>
    match ns.set? key v with
    | .ok next => (.ok (), next)
    | .error e => (.error e, ns)
  | .put key d => (.ok (), ns.put key d)
  | .remove key => (.ok (), ns.remove key)

/-- The namespace after a list of calls. -/
def performAll (ns : Namespace) (edits : List Edit) : Namespace :=
  edits.foldl (fun current edit => (current.perform edit).2) ns

/-- A call makes its change, or it is refused for a value that it holds and changes
    nothing. -/
theorem perform_cases (ns : Namespace) (edit : Edit) :
    (∃ change, edit.change? = some change ∧ ns.perform edit = (.ok (), ns.apply change) ∧
        ∀ e, ¬ edit.Refuses e) ∨
      ∃ e, edit.change? = none ∧ ns.perform edit = (.error e, ns) ∧ edit.Refuses e := by
  cases edit with
  | set key v =>
      rw [Edit.change?, perform, set?]
      cases hv : Datum.ofValue? v with
      | ok d =>
          refine Or.inl ⟨.set key d, rfl, rfl, ?_⟩
          rintro e ⟨_, _, part, heq, hpart, hrefuses⟩
          cases heq
          rcases Datum.exists_error_of_holds hpart hrefuses with ⟨other, hother⟩
          rw [hv] at hother
          cases hother
      | error e =>
          -- The value that stands in the way gives the reason.
          rcases Datum.exists_of_ofValue?_eq_error v hv with ⟨part, hpart, hrefuses⟩
          exact Or.inr ⟨e, rfl, rfl, key, v, part, rfl, hpart, hrefuses⟩
  | put key d =>
      refine Or.inl ⟨.set key d, rfl, rfl, ?_⟩
      rintro e ⟨_, _, _, heq, _⟩
      cases heq
  | remove key =>
      refine Or.inl ⟨.remove key, rfl, rfl, ?_⟩
      rintro e ⟨_, _, _, heq, _⟩
      cases heq

/-- Calls come to the changes of those that are not refused. -/
theorem performAll_eq_applyAll (ns : Namespace) (edits : List Edit) :
    ns.performAll edits = ns.applyAll (edits.filterMap Edit.change?) := by
  induction edits generalizing ns with
  | nil => rfl
  | cons edit rest ih =>
      change (ns.perform edit).2.performAll rest = _
      rw [ih]
      rcases ns.perform_cases edit with ⟨change, hchange, hperform, _⟩ | ⟨e, hnone, hperform, _⟩
      · rw [hperform, List.filterMap_cons_some hchange]
        rfl
      · rw [hperform, List.filterMap_cons_none hnone]

/-- A namespace that undergoes any calls shows its entries at the start and the changes of
    the calls that were not refused, one after the other. A call is refused if it is to store
    a value that holds, at any depth, one that cannot be stored, and then it leaves everything
    as it was. -/
theorem follows_performAll (ns : Namespace) (edits : List Edit) :
    (ns.performAll edits).Follows (ns.stored ++ edits.filterMap Edit.change?) ∧
      ∀ (current : Namespace) (edit : Edit),
        match current.perform edit with
        | (.ok _, after) => ∃ change, edit.change? = some change ∧ after = current.apply change ∧
            ∀ e, ¬ edit.Refuses e
        | (.error e, after) => edit.change? = none ∧ after = current ∧ edit.Refuses e := by
  constructor
  · rw [performAll_eq_applyAll]
    exact (follows_stored ns).applyAll _
  · intro current edit
    rcases current.perform_cases edit with
      ⟨change, hchange, hperform, hfit⟩ | ⟨e, hnone, hperform, hrefuses⟩
    · rw [hperform]
      exact ⟨change, hchange, rfl, hfit⟩
    · rw [hperform]
      exact ⟨hnone, rfl, hrefuses⟩

/-- A name that is removed comes again at the end. That something which has no datum was to
    be stored under it makes no difference, as deep as it may stand. -/
theorem follows_performAll_refusedBetween :
    let start : Namespace := .ofEntries [("a", .text "x"), ("b", .text "y")]
    let edits : List Edit :=
      [.set "a" (.mapping [("c", .sequence [])]), .remove "a", .set "a" (.text "z"),
        .set "b" (.text "w")]
    (start.performAll edits).keys = ["b", "a"] ∧
      (start.performAll edits).Follows [.set "a" (.text "x"), .set "b" (.text "y"), .remove "a",
        .set "a" (.text "z"), .set "b" (.text "w")] := by
  intro start edits
  exact ⟨rfl, (follows_performAll start edits).1⟩

end Namespace

end TextGrammar
