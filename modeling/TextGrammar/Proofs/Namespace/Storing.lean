import TextGrammar.Namespace
import TextGrammar.Proofs.Number.Rounding

/-!
# Values That Can Be Stored

Which plain values have a datum.

A mapping is stored entry by entry, and one entry that cannot be stored keeps the whole of it
from being stored, at whatever depth it stands. So all that matters is what a value holds.
Nothing and sequences have no datum. Neither has an integer that is nearer to the power of
two above all finite numbers than to the greatest of them; the one halfway between the two
is rounded up.

## Main definitions

* `Value.Holds`: A value and what is in it, at any depth.
* `Value.Refuses`: The values that are refused for what they are themselves.

## Theorems

* `Binary64.ofInt?_eq_none_iff`: The integers that are too large for a double.
* `Datum.exists_of_ofValue?_eq_error`: A value that is not stored holds a refused one.
* `Datum.exists_error_of_holds`: A value that holds a refused one is not stored.
-/

namespace TextGrammar

open Number

/-- The least integer that is rounded to infinity. -/
def Number.wholeLimit : Nat := Nat.pow 2 1024 - Nat.pow 2 970

/-- A double is infinite from halfway between the greatest finite one and the next power of
    two on. -/
theorem Binary64.ofInt?_eq_none_iff (i : Int) : ofInt? i = none ↔ wholeLimit ≤ i.natAbs := by
  have hat : roundRatio (wholeLimit * unitsPerOne) 1 = unitLimit := by decide +kernel
  have hbelow : roundRatio ((wholeLimit - 1) * unitsPerOne) 1 < unitLimit := by decide +kernel
  have hround : ofInt? i = none ↔ unitLimit ≤ roundRatio (i.natAbs * unitsPerOne) 1 := by
    unfold ofInt? ofUnits
    by_cases hlt : roundRatio (i.natAbs * unitsPerOne) 1 < unitLimit
    · rw [dif_pos hlt]
      exact iff_of_false (Option.some_ne_none _) (Nat.not_le.2 hlt)
    · rw [dif_neg hlt]
      exact iff_of_true rfl (Nat.not_lt.1 hlt)
  rw [hround]
  -- Rounding keeps the order, so it is enough to know what it does at the limit.
  constructor
  · intro hlarge
    refine Nat.not_lt.1 fun hlt => ?_
    have hle : roundRatio (i.natAbs * unitsPerOne) 1 ≤
        roundRatio ((wholeLimit - 1) * unitsPerOne) 1 :=
      roundRatio_mono (Nat.mul_le_mul_right _ (by omega))
    omega
  · intro hle
    rw [← hat]
    exact roundRatio_mono (Nat.mul_le_mul_right _ hle)

namespace Value

/-- What is in a value at any depth, itself included. -/
inductive Holds : Value → Value → Prop
  | self (v : Value) : Holds v v
  | entry (es : List (String × Value)) (key : String) (v part : Value) (hmem : (key, v) ∈ es)
      (hpart : Holds v part) : Holds (.mapping es) part

/-- The values that cannot be stored whatever they stand in, each with the reason. -/
inductive Refuses : Value → StoreError → Prop
  | null : Refuses .null (.unstorable "NoneType")
  | sequence (items : List Value) : Refuses (.sequence items) (.unstorable "list")
  | tooLarge (i : Int) (h : wholeLimit ≤ i.natAbs) : Refuses (.number (.whole i)) .tooLarge

end Value

namespace Datum

mutual

/-- A value that is not stored holds one that is refused for what it is, which gives the
    reason. -/
theorem exists_of_ofValue?_eq_error (v : Value) {e : StoreError} (h : ofValue? v = .error e) :
    ∃ part, v.Holds part ∧ part.Refuses e := by
  cases v with
  | null =>
      cases h
      exact ⟨_, .self _, .null⟩
  | boolean b => cases h
  | number q =>
      cases q with
      | real x => cases h
      -- A whole number is refused only for its size.
      | whole i =>
          rw [ofValue?, Quantity.toBinary64?] at h
          cases hi : Binary64.ofInt? i with
          | some x =>
              rw [hi] at h
              cases h
          | none =>
              rw [hi] at h
              cases h
              exact ⟨_, .self _, .tooLarge i ((Binary64.ofInt?_eq_none_iff i).1 hi)⟩
  | text s => cases h
  | sequence items =>
      cases h
      exact ⟨_, .self _, .sequence items⟩
  | mapping es =>
      rw [ofValue?] at h
      cases hes : ofPairs? es with
      | ok ds =>
          rw [hes] at h
          cases h
      | error other =>
          rw [hes] at h
          cases h
          -- The part that is refused lies in one of the entries, so the mapping holds it as
          -- well.
          rcases exists_of_ofPairs?_eq_error es hes with ⟨⟨key, v⟩, hmem, part, hpart, hrefuses⟩
          exact ⟨part, .entry es key v part hmem hpart, hrefuses⟩

/-- The same of the values in a list of entries. -/
theorem exists_of_ofPairs?_eq_error (es : List (String × Value)) {e : StoreError}
    (h : ofPairs? es = .error e) : ∃ entry ∈ es, ∃ part, entry.2.Holds part ∧ part.Refuses e := by
  cases es with
  | nil => cases h
  | cons entry rest =>
      rcases entry with ⟨key, v⟩
      rw [ofPairs?] at h
      cases hv : ofValue? v with
      | error other =>
          -- The first entry decides, whatever stands behind it.
          rw [hv] at h
          cases h
          exact ⟨(key, v), List.mem_cons_self, exists_of_ofValue?_eq_error v hv⟩
      | ok d =>
          rw [hv] at h
          cases hrest : ofPairs? rest with
          | ok ds =>
              rw [hrest] at h
              cases h
          | error other =>
              rw [hrest] at h
              cases h
              rcases exists_of_ofPairs?_eq_error rest hrest with ⟨entry, hmem, hpart⟩
              exact ⟨entry, List.mem_cons_of_mem _ hmem, hpart⟩

end

theorem exists_error_of_mem {es : List (String × Value)} {key : String} {v : Value}
    {e : StoreError} (hmem : (key, v) ∈ es) (h : ofValue? v = .error e) :
    ∃ other, ofPairs? es = .error other := by
  induction es with
  | nil => exact absurd hmem List.not_mem_nil
  | cons entry rest ih =>
      rcases entry with ⟨other, w⟩
      rw [ofPairs?]
      cases hw : ofValue? w with
      | error first => exact ⟨first, rfl⟩
      | ok d =>
          rcases List.mem_cons.1 hmem with heq | hrest
          · cases heq
            rw [h] at hw
            cases hw
          · rcases ih hrest with ⟨later, hlater⟩
            rw [hlater]
            exact ⟨later, rfl⟩

/-- A value that holds a refused one is not stored. The reason may be another one, which
    comes first. -/
theorem exists_error_of_holds {v part : Value} {e : StoreError} (hpart : v.Holds part)
    (h : part.Refuses e) : ∃ other, ofValue? v = .error other := by
  induction hpart with
  | self v =>
      cases h with
      | null => exact ⟨_, rfl⟩
      | sequence items => exact ⟨_, rfl⟩
      | tooLarge i hi =>
          refine ⟨.tooLarge, ?_⟩
          rw [ofValue?, Quantity.toBinary64?, (Binary64.ofInt?_eq_none_iff i).2 hi]
  | entry es key v part hmem _ ih =>
      rcases ih h with ⟨inner, hinner⟩
      rcases exists_error_of_mem hmem hinner with ⟨other, hother⟩
      refine ⟨other, ?_⟩
      rw [ofValue?, hother]

end Datum

end TextGrammar
