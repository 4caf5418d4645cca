import Mathlib.Tactic.IntervalCases
import TextGrammar.Proofs.Number.Rounding
import TextGrammar.Watcher.Basic

/-!
# Ordinals

How the filters for ordinals and cardinals spell numbers.

The suffix of an ordinal is read off the last two characters of its figures. The figures of
a natural number end in the digit that dividing by ten leaves, and what stands in front of
it are the figures of the quotient, so these two characters are the ones and the tens. A
number of one figure has no tens, as zero tens would not change its suffix either.

All this is about numbers that are natural by value. Whether there are more digits than a
double can tell apart does not matter, because figures are written in full, and the negative
zero is zero. Every other number, be it negative, fractional, infinite or not a number at
all, has neither words nor a suffix.

## Main definitions

* `NumberWords.suffixFor`: The suffix of a natural number, by its ones and tens.
* `Watcher.Spells`: The text that a filter makes of a number, however that was given.

## Theorems

* `Binary64.toInt?_eq_some_iff`: The numbers that are natural by value.
* `NumberWords.ordinalSuffix_toDigits`: The suffix of the figures is that of the number.
* `NumberWords.withOrdinalSuffix_of_hasUnits`, `NumberWords.ordinal_of_hasUnits`: Natural
  numbers as ordinals.
* `NumberWords.eq_display`: Every other number.
* `Watcher.spells_ordinals`: The filters for ordinals and cardinals.
-/

namespace TextGrammar

open Number

namespace Binary64

/-- The numbers that stand for a natural number are those with so many whole ones as units. -/
theorem toInt?_eq_some_iff (x : Binary64) (n : Nat) :
    x.toInt? = some (n : Int) ↔ x.HasUnits (n * unitsPerOne) := by
  have hone := unitsPerOne_pos
  constructor
  · intro h
    cases x with
    | nan => cases h
    | infinity negative => cases h
    | finite negative units valid =>
        unfold toInt? at h
        dsimp only at h
        split at h
        · rename_i hwhole
          have hunits := Nat.div_mul_cancel (Nat.dvd_of_mod_eq_zero hwhole)
          rcases eq_of_signed (Option.some.inj h) with ⟨hquotient, hsign⟩
          rw [hquotient] at hunits
          refine .intro _ _ _ _ ?_
          cases negative with
          | false => rw [hunits, signed, if_neg Bool.false_ne_true]
          | true =>
              -- A minus sign only stands before zero.
              rw [← hunits, hsign rfl, Nat.zero_mul]
              rfl
        · cases h
  · rintro ⟨negative, units, valid, _, hsigned⟩
    rcases eq_of_signed hsigned with ⟨hunits, hsign⟩
    unfold toInt?
    dsimp only
    rw [hunits, if_pos (Nat.mul_mod_left n _), Nat.mul_div_cancel n hone]
    cases negative with
    | false => rfl
    | true =>
        have hzero : n = 0 := (Nat.mul_eq_zero.1 (hsign rfl)).resolve_right (by omega)
        rw [hzero]
        rfl

end Binary64

namespace NumberWords

/-- The suffix that a natural number takes as an ordinal: `th` if it has a one in the tens
    place, and what its ones ask for otherwise. -/
def suffixFor (n : Nat) : String :=
  if n / 10 % 10 = 1 then "th"
  else
    match n % 10 with
    | 1 => "st"
    | 2 => "nd"
    | 3 => "rd"
    | _ => "th"

/-- The last figure of a number below ten is all there is. -/
theorem reverse_toDigits_of_lt {n : Nat} (h : n < 10) :
    (Nat.toDigits 10 n).reverse = [Nat.digitChar (n % 10)] := by
  rw [Nat.toDigits_of_lt_base h, Nat.mod_eq_of_lt h]
  rfl

/-- The figures in front of the last one are those of the quotient by ten. -/
theorem reverse_toDigits_of_le {n : Nat} (h : 10 ≤ n) :
    (Nat.toDigits 10 n).reverse =
      Nat.digitChar (n % 10) :: (Nat.toDigits 10 (n / 10)).reverse := by
  rw [Nat.toDigits_of_base_le (by decide) h, List.reverse_append]
  rfl

/-- The last figure is the remainder by ten. -/
theorem exists_reverse_toDigits (n : Nat) :
    ∃ rest, (Nat.toDigits 10 n).reverse = Nat.digitChar (n % 10) :: rest := by
  by_cases h : n < 10
  · exact ⟨[], reverse_toDigits_of_lt h⟩
  · exact ⟨_, reverse_toDigits_of_le (by omega)⟩

theorem digitChar_eq_one_iff {d : Nat} (h : d < 10) : Nat.digitChar d = '1' ↔ d = 1 := by
  interval_cases d <;> decide

/-- One figure has the suffix of its digit. -/
theorem ordinalSuffix_singleton {d : Nat} (h : d < 10) :
    ordinalSuffix [Nat.digitChar d] = suffixFor d := by
  interval_cases d <;> rfl

/-- Of two figures or more, the one before the last decides first. -/
theorem ordinalSuffix_cons_cons (ones tens : Char) (rest : List Char) :
    ordinalSuffix (ones :: tens :: rest) = if tens = '1' then "th" else ordinalSuffix [ones] := by
  by_cases h : tens = '1'
  · rw [if_pos h, h]
    rfl
  · rw [if_neg h]
    unfold ordinalSuffix
    split <;> simp_all

/-- The suffix that the figures of a number ask for is the one by its ones and tens. -/
theorem ordinalSuffix_toDigits (n : Nat) :
    ordinalSuffix (Nat.toDigits 10 n).reverse = suffixFor n := by
  have hones : n % 10 < 10 := Nat.mod_lt n (by decide)
  have htens : n / 10 % 10 < 10 := Nat.mod_lt _ (by decide)
  by_cases h : n < 10
  · rw [reverse_toDigits_of_lt h, ordinalSuffix_singleton hones, Nat.mod_eq_of_lt h]
  · rcases exists_reverse_toDigits (n / 10) with ⟨rest, hrest⟩
    rw [reverse_toDigits_of_le (by omega), hrest, ordinalSuffix_cons_cons,
      ordinalSuffix_singleton hones]
    simp only [digitChar_eq_one_iff htens]
    -- The ones on their own have no tens, so only they are left of the suffix.
    unfold suffixFor
    rw [show n % 10 / 10 % 10 = 0 by omega, Nat.mod_mod]
    rfl

variable {x : Binary64} {n : Nat}

/-- A natural number is written with all its digits. -/
theorem display_of_hasUnits (h : x.HasUnits (n * unitsPerOne)) : x.display = toString n := by
  unfold Binary64.display
  rw [(x.toInt?_eq_some_iff n).2 h]
  rfl

theorem withOrdinalSuffix_of_hasUnits (h : x.HasUnits (n * unitsPerOne)) :
    withOrdinalSuffix x = toString n ++ suffixFor n := by
  unfold withOrdinalSuffix
  rw [(x.toInt?_eq_some_iff n).2 h, display_of_hasUnits h]
  dsimp only
  rw [if_neg (by omega), Nat.toString_eq_repr, Nat.toList_repr, ordinalSuffix_toDigits]

/-- There are words for nine and less only. -/
theorem ordinal_of_hasUnits (h : x.HasUnits (n * unitsPerOne)) (hn : 10 ≤ n) :
    ordinal x = toString n ++ suffixFor n := by
  have hnone : wordFor? ordinalWords x = none := by
    unfold wordFor?
    rw [(x.toInt?_eq_some_iff n).2 h]
    exact List.getElem?_eq_none hn
  unfold ordinal
  rw [hnone]
  exact withOrdinalSuffix_of_hasUnits h

/-- A number that is no natural one is left as it is written. -/
theorem eq_display (h : ∀ n : Nat, ¬ x.HasUnits (n * unitsPerOne)) :
    withOrdinalSuffix x = x.display ∧ ordinal x = x.display ∧ cardinal x = x.display := by
  -- Only a whole number that is not negative has a spelling of its own.
  have hcases : x.toInt? = none ∨ ∃ m : Nat, x.toInt? = some (Int.negSucc m) := by
    cases hint : x.toInt? with
    | none => exact Or.inl rfl
    | some i =>
        cases i with
        | ofNat n => exact absurd ((x.toInt?_eq_some_iff n).1 hint) (h n)
        | negSucc m => exact Or.inr ⟨m, rfl⟩
  have hsuffix : withOrdinalSuffix x = x.display := by
    unfold withOrdinalSuffix
    rcases hcases with hint | ⟨m, hint⟩
    · rw [hint]
    · rw [hint]
      exact if_pos (Int.negSucc_lt_zero m)
  have hword : ∀ words, wordFor? words x = none := by
    intro words
    unfold wordFor?
    rcases hcases with hint | ⟨m, hint⟩
    · rw [hint]
    · rw [hint]
  refine ⟨hsuffix, ?_, ?_⟩
  · unfold ordinal
    rw [hword]
    exact hsuffix
  · unfold cardinal
    rw [hword]

end NumberWords

namespace Watcher

/-- A filter makes a text of a number, be it read in a text, or given as an integer or a
    double that is or is rounded to this number. -/
def Spells (w : Watcher) (x : Binary64) (s : String) : Prop :=
  w.ofNumber? x = .ok (some s) ∧
    ∀ q : Quantity, q.toBinary64? = some x → w.ofQuantity? q = .ok (some s)

/-- Apart from the plural, filters see no more of a number than its double. -/
theorem spells_of_ofNumber? {w : Watcher} {x : Binary64} {s : String}
    (hw : ∀ singular plural, w ≠ .pluralise singular plural)
    (h : w.ofNumber? x = .ok (some s)) : w.Spells x s := by
  refine ⟨h, fun q hq => ?_⟩
  unfold ofQuantity?
  split
  · rename_i singular plural
    exact absurd rfl (hw singular plural)
  · rw [hq]
    dsimp only
    rw [h]
    rfl

/-- A number that is natural by value is spelled as an ordinal with all its digits and the
    suffix that its ones and tens ask for, by the filter for words from ten on as well. Every
    other number is left as it is written, by the filter for cardinals too. -/
theorem spells_ordinals (x : Binary64) :
    (∀ n : Nat, x.HasUnits (n * unitsPerOne) →
      ordinalSuffix.Spells x (toString n ++ NumberWords.suffixFor n) ∧
      (10 ≤ n → ordinal.Spells x (toString n ++ NumberWords.suffixFor n))) ∧
    ((∀ n : Nat, ¬ x.HasUnits (n * unitsPerOne)) →
      ordinalSuffix.Spells x x.display ∧ ordinal.Spells x x.display ∧
        cardinal.Spells x x.display) := by
  have hspells : ∀ {w : Watcher} {made s : String}, (∀ one many, w ≠ .pluralise one many) →
      w.ofNumber? x = .ok (some made) → made = s → w.Spells x s := by
    rintro w made _ hw hmade rfl
    exact spells_of_ofNumber? hw hmade
  refine ⟨fun n hn => ⟨?_, fun hten => ?_⟩, fun hother => ?_⟩
  · exact hspells nofun rfl (NumberWords.withOrdinalSuffix_of_hasUnits hn)
  · exact hspells nofun rfl (NumberWords.ordinal_of_hasUnits hn hten)
  · rcases NumberWords.eq_display hother with ⟨hsuffix, hordinal, hcardinal⟩
    exact ⟨hspells nofun rfl hsuffix, hspells nofun rfl hordinal, hspells nofun rfl hcardinal⟩

/-- The sixty-ninth power of two has too many digits for all of them to be significant, and a
    one in the tens place. What is no number of things keeps its sign and its word. -/
theorem spells_ordinals_largePower :
    (∃ valid : IsMagnitude (590295810358705651712 * unitsPerOne),
      let x := Binary64.finite false (590295810358705651712 * unitsPerOne) valid
      x.HasUnits (590295810358705651712 * unitsPerOne) ∧
        ordinalSuffix.Spells x "590295810358705651712th" ∧
        ordinal.Spells x "590295810358705651712th") ∧
    (∀ n : Nat, ¬ (Binary64.infinity true).HasUnits (n * unitsPerOne)) ∧
      ordinalSuffix.Spells (.infinity true) "-inf" ∧ cardinal.Spells (.infinity true) "-inf" := by
  have hvalid : IsMagnitude (590295810358705651712 * unitsPerOne) :=
    ⟨by decide +kernel, by decide +kernel⟩
  have hunits : (Binary64.finite false _ hvalid).HasUnits
      (590295810358705651712 * unitsPerOne) := .intro _ _ _ _ rfl
  have hinfinite : ∀ n : Nat, ¬ (Binary64.infinity true).HasUnits (n * unitsPerOne) :=
    fun n h => nomatch h
  have hlarge := (spells_ordinals _).1 _ hunits
  have hother := (spells_ordinals _).2 hinfinite
  exact ⟨⟨hvalid, hunits, hlarge.1, hlarge.2 (by decide)⟩, hinfinite, hother.1, hother.2.2⟩

end Watcher

end TextGrammar
