import Mathlib.Data.List.Perm.Subperm
import TextGrammar.Proofs.Expression.Comparison
import TextGrammar.Proofs.Namespace.Exchange

/-!
# Equality of Namespaces

That equality ignores the order of entries and nothing else.

Two data are alike when they are of one type and say the same: numbers stand at the same
level, and nested entries have the same names with alike data under each of them. The places
of the entries have no part in this, at any depth. Equality is computed in another way. It
compares the numbers of entries, and looks every name of one side up on the other. This comes
to the same because no level has a name twice: as many names, all of them found on the other
side, are all the names of the other side.

Being alike is symmetric and transitive for any data. It is reflexive where what is not a
number can be met twice, and so in particular where all numbers have values. There equality
is an equivalence, and it cannot tell entries from the same entries in another order.

## Main definitions

* `Datum.Alike`: Data that say the same.
* `Datum.Reorders`: The same data with the entries of some levels in another order.
* `Namespace.IsPlain`: Data without a name that is there twice and without not a number, at
  any depth.

## Theorems

* `Datum.covered_iff`: What looking up all names of one side comes to.
* `Datum.equal_iff_alike`: Equality is being alike.
* `Datum.Alike.refl_of_notFresh`: What can be met twice is like itself.
* `Datum.Alike.refl`, `Datum.Alike.symm`, `Datum.Alike.trans`: An equivalence.
* `Datum.Reorders.alike`: Another order is alike.
* `Namespace.restores_and_compares`: The exchange with plain values, and equality.
-/

namespace TextGrammar

/-- Numbers are equal by value when they stand at the same level, and not a number equals
    nothing. -/
theorem Binary64.equal_iff (x y : Binary64) :
    x.equal y = true ↔ x.isNan = false ∧ y.isNan = false ∧ x.level = y.level := by
  by_cases hx : x.isNan = false
  · by_cases hy : y.isNan = false
    · rw [(lt_eq_and_equal_eq hx hy).2, decide_eq_true_eq]
      exact ⟨fun h => ⟨hx, hy, h⟩, fun h => h.2.2⟩
    · refine iff_of_false ?_ fun h => hy h.2.1
      cases y with
      | nan object => cases x <;> exact Bool.false_ne_true
      | infinity negative => exact absurd rfl hy
      | finite negative units valid => exact absurd rfl hy
  · refine iff_of_false ?_ fun h => hx h.1
    cases x with
    | nan object => exact Bool.false_ne_true
    | infinity negative => exact absurd rfl hx
    | finite negative units valid => exact absurd rfl hx

theorem Binary64.isSameNan_iff (x y : Binary64) :
    x.isSameNan y = true ↔ ∃ object, object ≠ .fresh ∧ x = .nan object ∧ y = .nan object := by
  constructor
  · intro h
    cases x with
    | nan a =>
        cases y with
        | nan b =>
            rcases Bool.and_eq_true_iff.1 h with ⟨hfresh, hsame⟩
            cases eq_of_beq hsame
            exact ⟨a, bne_iff_ne.1 hfresh, rfl, rfl⟩
        | infinity negative => cases h
        | finite negative units valid => cases h
    | infinity negative => cases h
    | finite negative units valid => cases h
  · rintro ⟨object, hfresh, rfl, rfl⟩
    exact Bool.and_eq_true_iff.2 ⟨bne_iff_ne.2 hfresh, beq_self_eq_true object⟩

namespace Entries

variable {α : Type} {es : Entries α}

theorem mem_of_find? {key : String} {value : α} (h : es.find? key = some value) :
    (key, value) ∈ es := by
  induction es with
  | nil => cases h
  | cons e rest ih =>
      rcases e with ⟨k, v⟩
      rw [find?] at h
      split at h
      · rename_i hk
        cases h
        exact hk ▸ List.mem_cons_self
      · exact List.mem_cons_of_mem _ (ih h)

/-- Among distinct keys, what is found under a key is what stands there. -/
theorem find?_of_mem (hdistinct : es.keys.Nodup) {key : String} {value : α}
    (h : (key, value) ∈ es) : es.find? key = some value := by
  induction es with
  | nil => exact absurd h List.not_mem_nil
  | cons e rest ih =>
      rcases e with ⟨k, v⟩
      rcases List.nodup_cons.1 hdistinct with ⟨hnew, hrest⟩
      rw [find?]
      rcases List.mem_cons.1 h with heq | hmem
      · cases heq
        rw [if_pos rfl]
      · have hne : k ≠ key := fun hk => hnew (hk ▸ mem_keys_of_mem hmem)
        rw [if_neg hne]
        exact ih hrest hmem

theorem eq_of_mem (hdistinct : es.keys.Nodup) {key : String} {value other : α}
    (h : (key, value) ∈ es) (hother : (key, other) ∈ es) : value = other :=
  Option.some.inj ((find?_of_mem hdistinct h).symm.trans (find?_of_mem hdistinct hother))

theorem length_keys (es : Entries α) : es.keys.length = es.length := List.length_map _

end Entries

namespace Datum

/-- Data that say the same: of one type, and equal but for the order of entries. What is not
    a number says nothing, and is like itself only if it can be met twice. -/
inductive Alike : Datum → Datum → Prop
  | number (x y : Binary64) (hx : x.isNan = false) (hy : y.isNan = false)
      (h : x.level = y.level) : Alike (.number x) (.number y)
  | same (object : NanObject) (h : object ≠ .fresh) :
      Alike (.number (.nan object)) (.number (.nan object))
  | text (s : String) : Alike (.text s) (.text s)
  | boolean (b : Bool) : Alike (.boolean b) (.boolean b)
  | nested (es fs : Entries Datum) (hkeys : ∀ key, key ∈ es.keys ↔ key ∈ fs.keys)
      (hdata : ∀ key d e, (key, d) ∈ es → (key, e) ∈ fs → Alike d e) :
      Alike (.nested es) (.nested fs)

/-- What says the same is of one type. -/
theorem Alike.kind_eq {d e : Datum} (h : Alike d e) : d.kind = e.kind := by
  cases h <;> rfl

theorem Alike.symm {d e : Datum} (h : Alike d e) : Alike e d := by
  induction h with
  | number x y hx hy h => exact .number y x hy hx h.symm
  | same object h => exact .same object h
  | text s => exact .text s
  | boolean b => exact .boolean b
  | nested es fs hkeys _ ih =>
      exact .nested fs es (fun key => (hkeys key).symm) fun key d e hd he => ih key e d he hd

theorem Alike.trans {d e f : Datum} (h : Alike d e) (hnext : Alike e f) : Alike d f := by
  induction h generalizing f with
  | number x y hx _ h =>
      cases hnext with
      | number _ z _ hz hlevel => exact .number x z hx hz (h.trans hlevel)
      | same object => exact .number x _ hx ‹_› h
  | same object h => exact hnext
  | text s => exact hnext
  | boolean b => exact hnext
  | nested es fs hkeys _ ih =>
      cases hnext with
      | nested _ gs hnames hdata =>
          refine .nested es gs (fun key => (hkeys key).trans (hnames key)) ?_
          intro key d f hd hf
          -- The name stands in the middle too, with a datum that is like both.
          rcases Entries.exists_of_mem_keys ((hkeys key).1 (Entries.mem_keys_of_mem hd)) with
            ⟨e, he⟩
          exact ih key d e hd he (hdata key e f he hf)

/-- A datum is anything but not a number. -/
def NotNan : Datum → Prop
  | .number x => x.isNan = false
  | _ => True

instance : DecidablePred NotNan
  | .number x => inferInstanceAs (Decidable (x.isNan = false))
  | .text _ | .boolean _ | .nested _ => inferInstanceAs (Decidable True)

/-- All numbers of a datum have values, at any depth. -/
def HasNoNan (d : Datum) : Prop := d.Throughout NotNan

instance (d : Datum) : Decidable d.HasNoNan := inferInstanceAs (Decidable (d.Throughout NotNan))

theorem hasNoNan_nested_iff {es : Entries Datum} :
    HasNoNan (.nested es) ↔ ∀ entry ∈ es, entry.2.HasNoNan :=
  throughout_nested_iff.trans (and_iff_right trivial)

/-- Looking up all names of one side on the other. -/
theorem covered_iff (es fs : Entries Datum) :
    covered es fs = true ↔
      ∀ entry ∈ es, ∃ e, Entries.find? fs entry.1 = some e ∧ entry.2.equal e = true := by
  induction es with
  | nil => exact iff_of_true rfl (List.forall_mem_nil _)
  | cons entry rest ih =>
      rcases entry with ⟨key, d⟩
      rw [covered, Bool.and_eq_true, ih, List.forall_mem_cons]
      refine and_congr_left fun _ => ?_
      cases Entries.find? fs key with
      | none => exact iff_of_false Bool.false_ne_true nofun
      | some e => exact ⟨fun h => ⟨e, rfl, h⟩, fun ⟨_, he, h⟩ => Option.some.inj he ▸ h⟩

/-- Data of different types are never equal. -/
theorem equal_eq_false_of_kind_ne {d e : Datum} (h : d.kind ≠ e.kind) : d.equal e = false := by
  cases d <;> cases e <;> first | rfl | exact absurd rfl h

theorem equal_iff_alike_of_kind_ne {d e : Datum} (h : d.kind ≠ e.kind) :
    d.equal e = true ↔ Alike d e := by
  rw [equal_eq_false_of_kind_ne h]
  exact iff_of_false Bool.false_ne_true fun halike => h halike.kind_eq

/-- Equality is being alike, where no level has a name twice. -/
theorem equal_iff_alike {d e : Datum} (hd : d.HasDistinctKeys) (he : e.HasDistinctKeys) :
    d.equal e = true ↔ Alike d e := by
  induction d using nestedInduction generalizing e with
  | number x =>
      cases e with
      | number y =>
          rw [equal, Bool.or_eq_true, Binary64.equal_iff, Binary64.isSameNan_iff]
          constructor
          · rintro (⟨hx, hy, h⟩ | ⟨object, hfresh, rfl, rfl⟩)
            · exact .number x y hx hy h
            · exact .same object hfresh
          · intro halike
            cases halike with
            | number _ _ hx hy h => exact Or.inl ⟨hx, hy, h⟩
            | same object hfresh => exact Or.inr ⟨object, hfresh, rfl, rfl⟩
      | _ => exact equal_iff_alike_of_kind_ne nofun
  | text s =>
      cases e with
      | text t =>
          rw [equal, beq_iff_eq]
          exact ⟨fun h => h ▸ .text s, fun | .text _ => rfl⟩
      | _ => exact equal_iff_alike_of_kind_ne nofun
  | boolean b =>
      cases e with
      | boolean c =>
          rw [equal, beq_iff_eq]
          exact ⟨fun h => h ▸ .boolean b, fun | .boolean _ => rfl⟩
      | _ => exact equal_iff_alike_of_kind_ne nofun
  | nested es ih =>
      cases e with
      | nested fs =>
          rcases hasDistinctKeys_nested_iff.1 hd with ⟨hes, hin⟩
          rcases hasDistinctKeys_nested_iff.1 he with ⟨hfs, hother⟩
          rw [equal, Bool.and_eq_true, beq_iff_eq, covered_iff]
          constructor
          · rintro ⟨hlength, hfound⟩
            have hsub : es.keys ⊆ Entries.keys fs := by
              intro key hkey
              rcases Entries.exists_of_mem_keys hkey with ⟨d, hmem⟩
              rcases hfound (key, d) hmem with ⟨e, hfind, _⟩
              exact Entries.mem_keys_of_mem (Entries.mem_of_find? hfind)
            -- As many names on both sides leave none that is found on one side only.
            have hperm : es.keys.Perm (Entries.keys fs) := by
              refine (List.subperm_of_subset hes hsub).perm_of_length_le (Nat.le_of_eq ?_)
              rw [Entries.length_keys, Entries.length_keys, hlength]
            refine .nested es fs (fun key => hperm.mem_iff) fun key d e hmem hmem' => ?_
            rcases hfound (key, d) hmem with ⟨e', hfind, hequal⟩
            rw [Entries.find?_of_mem hfs hmem'] at hfind
            cases hfind
            exact (ih (key, d) hmem (hin _ hmem) (hother _ hmem')).1 hequal
          · intro halike
            cases halike with | nested _ _ hkeys hdata => ?_
            have hperm : es.keys.Perm (Entries.keys fs) :=
              (List.perm_ext_iff_of_nodup hes hfs).2 hkeys
            refine ⟨?_, fun entry hmem => ?_⟩
            · rw [← Entries.length_keys, ← Entries.length_keys, hperm.length_eq]
            · rcases Entries.exists_of_mem_keys ((hkeys entry.1).1 (Entries.mem_keys_of_mem hmem))
                with ⟨e, hmem'⟩
              refine ⟨e, Entries.find?_of_mem hfs hmem', ?_⟩
              exact (ih entry hmem (hin _ hmem) (hother _ hmem')).2 (hdata _ _ _ hmem hmem')
      | _ => exact equal_iff_alike_of_kind_ne nofun

/-- A datum is anything but a number without a value that is met nowhere else. -/
def NotFresh : Datum → Prop
  | .number x => x ≠ .nan .fresh
  | _ => True

theorem NotNan.notFresh {d : Datum} (h : d.NotNan) : d.NotFresh := by
  cases d with
  | number x =>
      rintro rfl
      cases h
  | text s => trivial
  | boolean b => trivial
  | nested es => trivial

/-- A datum is like itself, as long as all objects in it can be met twice. -/
theorem Alike.refl_of_notFresh {d : Datum} (hkeys : d.HasDistinctKeys)
    (hfresh : d.Throughout NotFresh) : Alike d d := by
  induction d using nestedInduction with
  | number x =>
      have hx : x ≠ .nan .fresh := hfresh (.number x) List.mem_cons_self
      cases x with
      | nan object => exact .same object fun heq => hx (heq ▸ rfl)
      | infinity negative => exact .number _ _ rfl rfl rfl
      | finite negative units valid => exact .number _ _ rfl rfl rfl
  | text s => exact .text s
  | boolean b => exact .boolean b
  | nested es ih =>
      rcases hasDistinctKeys_nested_iff.1 hkeys with ⟨hes, hin⟩
      refine .nested es es (fun _ => Iff.rfl) fun key d e hd he => ?_
      -- A name leads to the same entry on both sides.
      cases Entries.eq_of_mem hes hd he
      exact ih _ hd (hin _ hd) ((throughout_nested_iff.1 hfresh).2 _ hd)

/-- In particular a datum is like itself if all numbers in it have values. -/
theorem Alike.refl {d : Datum} (hkeys : d.HasDistinctKeys) (hnan : d.HasNoNan) : Alike d d :=
  .refl_of_notFresh hkeys fun part hpart => (hnan part hpart).notFresh

/-- The same data with the entries of some levels in another order. -/
inductive Reorders : Datum → Datum → Prop
  | refl (d : Datum) : Reorders d d
  | level (es fs : Entries Datum) (h : es.Perm fs) : Reorders (.nested es) (.nested fs)
  | within (front back : Entries Datum) (key : String) (d e : Datum) (h : Reorders d e) :
      Reorders (.nested (front ++ (key, d) :: back)) (.nested (front ++ (key, e) :: back))
  | trans (d e f : Datum) (h : Reorders d e) (hnext : Reorders e f) : Reorders d f

namespace Reorders

variable {d e : Datum}

theorem hasDistinctKeys (h : Reorders d e) (hd : d.HasDistinctKeys) : e.HasDistinctKeys := by
  induction h with
  | refl d => exact hd
  | level es fs h =>
      rcases hasDistinctKeys_nested_iff.1 hd with ⟨hkeys, hin⟩
      refine hasDistinctKeys_nested_iff.2 ⟨(h.map Prod.fst).nodup_iff.1 hkeys, ?_⟩
      exact fun entry hentry => hin entry (h.mem_iff.2 hentry)
  | within front back key d e _ ih =>
      rcases hasDistinctKeys_nested_iff.1 hd with ⟨hkeys, hin⟩
      rcases List.forall_mem_append.1 hin with ⟨hfront, hrest⟩
      rcases List.forall_mem_cons.1 hrest with ⟨hhere, hback⟩
      refine hasDistinctKeys_nested_iff.2 ⟨?_, List.forall_mem_append.2 ⟨hfront, ?_⟩⟩
      · rwa [Entries.keys, List.map_append, List.map_cons] at hkeys ⊢
      · exact List.forall_mem_cons.2 ⟨ih hhere, hback⟩
  | trans _ _ _ _ _ ih ihnext => exact ihnext (ih hd)

theorem hasNoNan (h : Reorders d e) (hd : d.HasNoNan) : e.HasNoNan := by
  induction h with
  | refl d => exact hd
  | level es fs h =>
      have hin := hasNoNan_nested_iff.1 hd
      exact hasNoNan_nested_iff.2 fun entry hentry => hin entry (h.mem_iff.2 hentry)
  | within front back key d e _ ih =>
      rcases List.forall_mem_append.1 (hasNoNan_nested_iff.1 hd) with ⟨hfront, hrest⟩
      rcases List.forall_mem_cons.1 hrest with ⟨hhere, hback⟩
      refine hasNoNan_nested_iff.2 (List.forall_mem_append.2 ⟨hfront, ?_⟩)
      exact List.forall_mem_cons.2 ⟨ih hhere, hback⟩
  | trans _ _ _ _ _ ih ihnext => exact ihnext (ih hd)

/-- Data with the entries of some levels in another order are alike. -/
theorem alike (h : Reorders d e) (hd : d.HasDistinctKeys) (hnan : d.HasNoNan) : Alike d e := by
  induction h with
  | refl d => exact .refl hd hnan
  | level es fs h =>
      rcases hasDistinctKeys_nested_iff.1 hd with ⟨hkeys, hin⟩
      refine .nested es fs (fun key => (h.map Prod.fst).mem_iff) fun key d e hmem hmem' => ?_
      cases Entries.eq_of_mem hkeys hmem (h.mem_iff.2 hmem')
      exact .refl (hin _ hmem) (hasNoNan_nested_iff.1 hnan _ hmem)
  | within front back key d e _ ih =>
      rcases hasDistinctKeys_nested_iff.1 hd with ⟨hkeys, hin⟩
      have hnans := hasNoNan_nested_iff.1 hnan
      have hhere : (key, d) ∈ front ++ (key, d) :: back :=
        List.mem_append_right _ List.mem_cons_self
      refine .nested _ _ (fun other => ?_) fun other d' e' hmem hmem' => ?_
      · rw [Entries.keys, Entries.keys, List.map_append, List.map_append, List.map_cons,
          List.map_cons]
      -- The entry that has changed inside is like what it was, and the others are the same.
      · by_cases heq : (other, e') = (key, e)
        · cases heq
          cases Entries.eq_of_mem hkeys hmem hhere
          exact ih (hin _ hhere) (hnans _ hhere)
        · have hold : (other, e') ∈ front ++ (key, d) :: back := by
            rcases List.mem_append.1 hmem' with hfront | hrest
            · exact List.mem_append_left _ hfront
            · have hback := (List.mem_cons.1 hrest).resolve_left heq
              exact List.mem_append_right _ (List.mem_cons_of_mem _ hback)
          cases Entries.eq_of_mem hkeys hmem hold
          exact .refl (hin _ hmem) (hnans _ hmem)
  | trans _ _ _ h _ ih ihnext =>
      exact (ih hd hnan).trans (ihnext (h.hasDistinctKeys hd) (h.hasNoNan hnan))

end Reorders

end Datum

namespace Namespace

/-- The data of a namespace have no name twice, and all their numbers have values, at any
    depth. -/
structure IsPlain (ns : Namespace) : Prop where
  forall_hasDistinctKeys : ∀ entry ∈ ns.entries, entry.2.HasDistinctKeys
  hasNoNan : ns.toDatum.HasNoNan

/-- As the names of the namespace itself are distinct, so are those of all levels. -/
theorem IsPlain.hasDistinctKeys {ns : Namespace} (h : ns.IsPlain) : ns.toDatum.HasDistinctKeys :=
  Datum.hasDistinctKeys_nested_iff.2 ⟨ns.nodup, h.forall_hasDistinctKeys⟩

/-- A namespace comes back from its plain values: it is the same in all names, in their order
    and in the types of its data. Equality means the same names with data of one type that
    say the same, at every depth. So no order of entries matters to it, data of different
    types are never equal, and it is an equivalence. -/
theorem restores_and_compares (a b c : Namespace) (ha : a.IsPlain) (hb : b.IsPlain)
    (hc : c.IsPlain) :
    (ofPairs? a.toPairs = .ok a ∧ a.equal a = true) ∧
    (a.equal b = true ↔ a.toDatum.Alike b.toDatum) ∧
    (∀ a' b' : Namespace, a.toDatum.Reorders a'.toDatum → b.toDatum.Reorders b'.toDatum →
      a'.equal b' = a.equal b) ∧
    (∀ d e : Datum, d.kind ≠ e.kind → d.equal e = false) ∧
    a.equal b = b.equal a ∧
    (a.equal b = true → b.equal c = true → a.equal c = true) := by
  -- Where keys are distinct, equality is a relation on data, and the laws are those of that
  -- relation.
  have hiff : ∀ {a b : Namespace}, a.toDatum.HasDistinctKeys → b.toDatum.HasDistinctKeys →
      (a.equal b = true ↔ a.toDatum.Alike b.toDatum) := Datum.equal_iff_alike
  have hab := hiff ha.hasDistinctKeys hb.hasDistinctKeys
  have hself := Datum.Alike.refl ha.hasDistinctKeys ha.hasNoNan
  refine ⟨⟨ofPairs?_toPairs ha.hasDistinctKeys, ?_⟩, hab, ?_, ?_, ?_, ?_⟩
  · exact (hiff ha.hasDistinctKeys ha.hasDistinctKeys).2 hself
  · intro a' b' hra hrb
    have hla := hra.alike ha.hasDistinctKeys ha.hasNoNan
    have hlb := hrb.alike hb.hasDistinctKeys hb.hasNoNan
    have hab' := hiff (hra.hasDistinctKeys ha.hasDistinctKeys)
      (hrb.hasDistinctKeys hb.hasDistinctKeys)
    rw [Bool.eq_iff_iff, hab', hab]
    exact ⟨fun h => (hla.trans h).trans hlb.symm, fun h => (hla.symm.trans h).trans hlb⟩
  · exact fun d e hkind => Datum.equal_eq_false_of_kind_ne hkind
  · rw [Bool.eq_iff_iff, hab, hiff hb.hasDistinctKeys ha.hasDistinctKeys]
    exact ⟨.symm, .symm⟩
  · rw [hab, hiff hb.hasDistinctKeys hc.hasDistinctKeys, hiff ha.hasDistinctKeys hc.hasDistinctKeys]
    exact .trans

/-- Zero with the other sign, and the entries of both levels in another order, make no
    difference. False in the place of zero does. -/
theorem restores_and_compares_twoLevels :
    let a : Namespace := .ofEntries [("gold", .number 0),
      ("hero", .nested [("name", .text "Ann"), ("royal", .boolean true)])]
    let b : Namespace := .ofEntries [
      ("hero", .nested [("royal", .boolean true), ("name", .text "Ann")]),
      ("gold", .number (.signedZero true))]
    let c : Namespace := .ofEntries [("gold", .boolean false),
      ("hero", .nested [("name", .text "Ann"), ("royal", .boolean true)])]
    (a.IsPlain ∧ b.IsPlain ∧ c.IsPlain) ∧ ofPairs? a.toPairs = .ok a ∧
      a.toDatum.Alike b.toDatum ∧ ¬ a.toDatum.Alike c.toDatum := by
  intro a b c
  have hfilled : ofPairs? [("gold", .number (.real 0)), ("hero", .mapping [("name", .text "Ann"),
      ("royal", .boolean true)])] = .ok a := rfl
  have hdistinct := Datum.hasDistinctKeys_nested_iff.1 (hasDistinctKeys_of_ofPairs? hfilled)
  have ha : a.IsPlain := ⟨hdistinct.2, by decide⟩
  have hb : b.IsPlain := ⟨by decide, by decide⟩
  have hc : c.IsPlain := ⟨by decide, by decide⟩
  rcases restores_and_compares a b c ha hb hc with ⟨⟨hrestored, _⟩, hab, _⟩
  rcases restores_and_compares a c b ha hc hb with ⟨_, hac, _⟩
  have hequal : a.equal b = true := by decide +kernel
  have hdiffer : ¬ a.equal c = true := by decide +kernel
  exact ⟨⟨ha, hb, hc⟩, hrestored, hab.1 hequal, fun h => hdiffer (hac.2 h)⟩

end Namespace

end TextGrammar
