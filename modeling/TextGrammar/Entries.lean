/-!
# Ordered Entries

Lists of keyed values in which every key stands once, in the order in which
the keys arrived.

Writing a key that is present replaces its value in place; writing a new one
appends it. Removing a key and writing it again therefore moves it to the end.

## Main definitions

* `Entries`: A list of keys with values.
* `Entries.find?`: The value of a key.
* `Entries.insert`: Write a key.
* `Entries.erase`: Remove a key.
* `Entries.ofList`: Write the pairs of a list one after the other.
* `Entries.keys`: The keys in order.

## Theorems

* `Entries.find?_insert`: Reading after a write.
* `Entries.find?_erase`: Reading after a removal.
* `Entries.keys_insert`: A write keeps the order and appends a new key.
* `Entries.keys_erase`: A removal keeps the order of the others.
* `Entries.nodup_keys_insert`, `Entries.nodup_keys_erase`: Keys stay distinct.
* `Entries.nodup_keys_ofList`: Keys that are written in turn are distinct.
-/

namespace TextGrammar

/-- Keys with their values, in order. -/
abbrev Entries (α : Type) := List (String × α)

namespace Entries

variable {α : Type}

/-- The keys, in order. -/
def keys (es : Entries α) : List String := es.map Prod.fst

/-- The value of a key, if it is present. -/
def find? : Entries α → String → Option α
  | [], _ => none
  | (k, v) :: rest, key => if k = key then some v else find? rest key

/-- Whether a key is present. -/
def contains (es : Entries α) (key : String) : Bool := (es.find? key).isSome

/-- Write a value under a key: in the place of the key if it is present, at the
    end otherwise. -/
def insert : Entries α → String → α → Entries α
  | [], key, value => [(key, value)]
  | (k, v) :: rest, key, value =>
    if k = key then (k, value) :: rest else (k, v) :: insert rest key value

/-- Remove a key. -/
def erase (es : Entries α) (key : String) : Entries α := es.filter fun e => e.1 != key

/-- The entries that arise by writing the pairs of a list in turn. -/
def ofList (pairs : List (String × α)) : Entries α :=
  pairs.foldl (fun es pair => es.insert pair.1 pair.2) []

theorem find?_insert (es : Entries α) (key other : String) (value : α) :
    (es.insert key value).find? other = if key = other then some value else es.find? other := by
  induction es with
  | nil => simp [insert, find?]
  | cons e rest ih =>
      obtain ⟨k, v⟩ := e
      simp only [insert]
      split
      · rename_i hk
        subst hk
        by_cases h : k = other <;> simp [find?, h]
      · rename_i hk
        simp only [find?, ih]
        by_cases h : k = other
        · have : key ≠ other := fun hko => hk (h.trans hko.symm)
          simp [h, this]
        · simp [h]

theorem mem_keys_iff (es : Entries α) (key : String) :
    key ∈ es.keys ↔ (es.find? key).isSome := by
  induction es with
  | nil => simp [keys, find?]
  | cons e rest ih =>
      obtain ⟨k, v⟩ := e
      simp only [keys, List.map_cons, List.mem_cons, find?]
      by_cases h : k = key
      · simp [h]
      · have : key ≠ k := fun hk => h hk.symm
        simp only [h, this, if_false, false_or]
        exact ih

/-- A write keeps the keys in order and appends a key that is new. -/
theorem keys_insert (es : Entries α) (key : String) (value : α) :
    (es.insert key value).keys = if key ∈ es.keys then es.keys else es.keys ++ [key] := by
  induction es with
  | nil => simp [insert, keys]
  | cons e rest ih =>
      obtain ⟨k, v⟩ := e
      simp only [insert]
      split
      · rename_i hk
        simp [keys, hk]
      · rename_i hk
        have hne : key ≠ k := fun h => hk h.symm
        have ih' : (insert rest key value).map Prod.fst =
            if key ∈ rest.map Prod.fst then rest.map Prod.fst else rest.map Prod.fst ++ [key] := ih
        simp only [keys, List.map_cons, List.mem_cons, hne, false_or, ih']
        split <;> simp

theorem erase_cons (e : String × α) (rest : Entries α) (key : String) :
    erase (e :: rest) key = if e.1 = key then erase rest key else e :: erase rest key := by
  by_cases h : e.1 = key <;> simp [erase, h]

/-- A removal keeps the other keys in order. -/
theorem keys_erase (es : Entries α) (key : String) :
    (es.erase key).keys = es.keys.filter (· != key) := by
  induction es with
  | nil => rfl
  | cons e rest ih =>
      rw [erase_cons]
      by_cases h : e.1 = key
      · simpa [keys, h] using ih
      · simpa [keys, h] using ih

theorem nodup_keys_insert (es : Entries α) (key : String) (value : α) (h : es.keys.Nodup) :
    (es.insert key value).keys.Nodup := by
  rw [keys_insert]
  split
  · exact h
  · rename_i hk
    refine List.nodup_append.2 ⟨h, by simp, ?_⟩
    intro a ha b hb hab
    rw [List.mem_singleton.1 hb] at hab
    exact hk (hab ▸ ha)

theorem nodup_keys_ofList (pairs : List (String × α)) : (ofList pairs).keys.Nodup := by
  have hfold : ∀ (rest : List (String × α)) (es : Entries α), es.keys.Nodup →
      (rest.foldl (fun es pair => es.insert pair.1 pair.2) es).keys.Nodup := by
    intro rest
    induction rest with
    | nil => exact fun es h => h
    | cons pair rest ih => exact fun es h => ih _ (nodup_keys_insert es pair.1 pair.2 h)
  exact hfold pairs [] List.nodup_nil

theorem nodup_keys_erase (es : Entries α) (key : String) (h : es.keys.Nodup) :
    (es.erase key).keys.Nodup := by
  rw [keys_erase]
  exact h.filter _

theorem find?_erase (es : Entries α) (key other : String) :
    (es.erase key).find? other = if key = other then none else es.find? other := by
  induction es with
  | nil => simp [erase, find?]
  | cons e rest ih =>
      obtain ⟨k, v⟩ := e
      rw [erase_cons]
      by_cases hkey : k = key
      · -- The entry goes, and nothing looks it up but the key that is removed.
        rw [if_pos hkey, ih]
        by_cases ho : key = other <;> simp [find?, hkey, ho]
      · rw [if_neg hkey]
        by_cases ho : k = other
        · have : key ≠ other := fun hko => hkey (ho.trans hko.symm)
          simp [find?, ho, this]
        · simp [find?, ho, ih]

end Entries

end TextGrammar
