import TextGrammar.Number.Decimal
import TextGrammar.Proofs.Number.Rounding

/-!
# Values of Decimals

That a decimal is read by its value, and that a shortest decimal is read as the number
that it was made for.

A decimal has many forms of one value, as zeros at its end may be traded for the exponent.
All of them are read as one number, because a ratio is rounded in the same way whatever it
is reduced by. The exponents that are answered without a power of ten are no exception:
beyond them, every value lies above the limit or rounds to nothing.

## Theorems

* `Number.roundRatio_scale`: A ratio is rounded by its value.
* `Binary64.ofDecimal_eq_ofUnits`: And so is a decimal, however extreme its exponent.
* `Binary64.ofDecimal_shift`: Zeros at the end of a decimal may go into its exponent.
* `Binary64.ofDecimal_shortest`: The shortest decimal for a count of units is read as that.
-/

namespace TextGrammar

namespace Number

theorem roundHalfEven_scale (num den : Nat) {k : Nat} (hk : 0 < k) :
    roundHalfEven (num * k) (den * k) = roundHalfEven num den := by
  have hdown : 2 * (num % den * k) < den * k ↔ 2 * (num % den) < den := by
    rw [← Nat.mul_assoc]
    exact Nat.mul_lt_mul_right hk
  have hup : den * k < 2 * (num % den * k) ↔ den < 2 * (num % den) := by
    rw [← Nat.mul_assoc]
    exact Nat.mul_lt_mul_right hk
  unfold roundHalfEven
  simp only [Nat.mul_div_mul_right _ _ hk, Nat.mul_mod_mul_right, hdown, hup]

/-- A ratio may be reduced before it is rounded. -/
theorem roundRatio_scale (num den : Nat) {k : Nat} (hk : 0 < k) :
    roundRatio (num * k) (den * k) = roundRatio num den := by
  unfold roundRatio
  dsimp only
  rw [Nat.mul_div_mul_right _ _ hk, Nat.mul_right_comm, roundHalfEven_scale _ _ hk]

/-- Less than half a unit rounds to nothing. -/
theorem roundRatio_eq_zero {num den : Nat} (h : 2 * num < den) : roundRatio num den = 0 := by
  have hlt : num < den := by omega
  have hround : roundHalfEven num den = 0 := by
    unfold roundHalfEven
    dsimp only
    rw [Nat.div_eq_of_lt hlt, Nat.mod_eq_of_lt hlt, if_pos h]
  unfold roundRatio
  dsimp only
  rw [Nat.div_eq_of_lt hlt, Nat.log2_zero, Nat.zero_sub, show Nat.pow 2 0 = 1 from rfl,
    Nat.mul_one, Nat.mul_one, hround]

theorem isShort_two_pow (n : Nat) : IsShort (Nat.pow 2 n) := by
  have hone := two_pow_log2_dvd 1 n (Nat.one_le_two_pow (n := 53))
  rwa [Nat.one_mul] at hone

/-- A power of two is at most the power of ten with a third of its exponent. -/
theorem two_pow_le_ten_pow {a b : Nat} (h : a ≤ 3 * b) : Nat.pow 2 a ≤ Nat.pow 10 b := by
  have hten : (2 ^ 3) ^ b ≤ 10 ^ b := Nat.pow_le_pow_left (by decide) b
  rw [← Nat.pow_mul] at hten
  exact Nat.le_trans (Nat.pow_le_pow_right Nat.two_pos h) hten

-- Powers are written as the definitions have them, and so are their laws: where `^` is used,
-- the powers of closed terms are computed.

theorem two_pow_add (a b : Nat) : Nat.pow 2 (a + b) = Nat.pow 2 a * Nat.pow 2 b :=
  Nat.pow_add 2 a b

theorem ten_pow_add (a b : Nat) : Nat.pow 10 (a + b) = Nat.pow 10 a * Nat.pow 10 b :=
  Nat.pow_add 10 a b

theorem two_pow_pos (n : Nat) : 0 < Nat.pow 2 n := Nat.two_pow_pos n

theorem ten_pow_pos (n : Nat) : 0 < Nat.pow 10 n := Nat.pow_pos (by decide)

theorem isShort_unitLimit : IsShort unitLimit := by
  unfold unitLimit
  exact isShort_two_pow _

section Units

-- The power of two that the unit stands for is not to be computed.

theorem unitLimit_le {b : Nat} (h : 1024 ≤ 3 * b) : unitLimit ≤ Nat.pow 10 b * unitsPerOne := by
  unfold unitLimit unitsPerOne
  generalize 1024 = k at h ⊢
  generalize unitExponent = n
  rw [Nat.add_comm, two_pow_add]
  exact Nat.mul_le_mul_right _ (two_pow_le_ten_pow h)

theorem two_mul_unitsPerOne : 2 * unitsPerOne = Nat.pow 2 (unitExponent + 1) := by
  unfold unitsPerOne
  generalize unitExponent = n
  exact Nat.pow_succ'.symm

theorem five_pow_mul_unitsPerOne :
    Nat.pow 5 unitExponent * unitsPerOne = Nat.pow 10 unitExponent := by
  unfold unitsPerOne
  generalize unitExponent = n
  exact (Nat.mul_pow 5 2 n).symm

end Units

end Number

open Number

/-- The search for a shortest decimal, told of the function. Told of its value it would be
    run where the two sides are compared. -/
theorem Decimal.shortest_def : Decimal.shortest = fun units =>
    match (((List.range 17).map fun extra : Nat => Decimal.leadingExponent units - extra).flatMap
      (Decimal.neighbours units)).find? (Decimal.readsAs units) with
    | some d => d
    | none => Decimal.exact units := rfl

namespace Binary64

variable (negative : Bool)

theorem ofUnits_scale (num den : Nat) {k : Nat} (hk : 0 < k) :
    ofUnits negative (num * k) (den * k) = ofUnits negative num den := by
  unfold ofUnits
  simp only [roundRatio_scale num den hk]

theorem ofUnits_eq_finite {num den units : Nat} (valid : IsMagnitude units)
    (h : roundRatio num den = units) : ofUnits negative num den = .finite negative units valid := by
  subst h
  exact dif_pos valid.2

theorem ofUnits_eq_signedZero {num den : Nat} (h : 2 * num < den) :
    ofUnits negative num den = signedZero negative :=
  ofUnits_eq_finite negative isMagnitude_zero (roundRatio_eq_zero h)

theorem ofUnits_eq_infinity {num den : Nat} (hden : 0 < den) (h : unitLimit * den ≤ num) :
    ofUnits negative num den = .infinity negative := by
  have hle : unitLimit ≤ roundRatio num den := by
    rw [← roundRatio_mul hden isShort_unitLimit]
    exact roundRatio_mono h
  exact dif_neg (Nat.not_lt.2 hle)

/-- The sign has no part in the size of a number. -/
theorem ofUnits_of_eq_finite {num den units : Nat} {other : Bool} {valid : IsMagnitude units}
    (h : ofUnits other num den = .finite other units valid) :
    ofUnits negative num den = .finite negative units valid := by
  unfold ofUnits at h
  split at h
  · refine ofUnits_eq_finite negative valid ?_
    cases h
    rfl
  · cases h

/-- A power of ten that is large by itself makes up for no digits: the value is above the
    limit. -/
theorem ofUnits_eq_infinity_of_le {m up down : Nat} (hpos : 0 < m)
    (hrange : 1024 ≤ 3 * (up - down)) :
    ofUnits negative (m * Nat.pow 10 up * unitsPerOne) (Nat.pow 10 down) =
      .infinity negative := by
  have hup : Nat.pow 10 up = Nat.pow 10 (up - down) * Nat.pow 10 down := by
    rw [← ten_pow_add, Nat.sub_add_cancel (by omega)]
  refine ofUnits_eq_infinity negative (ten_pow_pos down) ?_
  calc unitLimit * Nat.pow 10 down
      ≤ Nat.pow 10 (up - down) * unitsPerOne * Nat.pow 10 down :=
        Nat.mul_le_mul_right _ (unitLimit_le hrange)
    _ = Nat.pow 10 up * unitsPerOne := by rw [hup, Nat.mul_right_comm]
    _ ≤ m * Nat.pow 10 up * unitsPerOne :=
        Nat.mul_le_mul_right _ (Nat.le_mul_of_pos_left _ hpos)

/-- A power of ten that is small enough is not made up for by the digits: the value is less
    than half a unit. -/
theorem ofUnits_eq_signedZero_of_le {m up down : Nat}
    (hrange : m.log2 + 1 + (unitExponent + 1) ≤ 3 * (down - up)) :
    ofUnits negative (m * Nat.pow 10 up * unitsPerOne) (Nat.pow 10 down) =
      signedZero negative := by
  have hdown : Nat.pow 10 down = Nat.pow 10 (down - up) * Nat.pow 10 up := by
    rw [← ten_pow_add, Nat.sub_add_cancel (by omega)]
  have hdigits : m < Nat.pow 2 (m.log2 + 1) := Nat.lt_log2_self
  have hvalue : m * Nat.pow 2 (unitExponent + 1) < Nat.pow 10 (down - up) :=
    calc m * Nat.pow 2 (unitExponent + 1)
        < Nat.pow 2 (m.log2 + 1) * Nat.pow 2 (unitExponent + 1) :=
          Nat.mul_lt_mul_of_pos_right hdigits (two_pow_pos _)
      _ = Nat.pow 2 (m.log2 + 1 + (unitExponent + 1)) := (two_pow_add _ _).symm
      _ ≤ Nat.pow 10 (down - up) := two_pow_le_ten_pow hrange
  refine ofUnits_eq_signedZero negative ?_
  calc 2 * (m * Nat.pow 10 up * unitsPerOne)
      = m * Nat.pow 2 (unitExponent + 1) * Nat.pow 10 up := by
        rw [← two_mul_unitsPerOne, Nat.mul_left_comm, Nat.mul_right_comm, Nat.mul_assoc,
          Nat.mul_assoc]
    _ < Nat.pow 10 down := by
        rw [hdown]
        exact Nat.mul_lt_mul_of_pos_right hvalue (ten_pow_pos up)

/-- A decimal is read as the number nearest to its value. The exponent may be told as any
    difference of two powers of ten. -/
theorem ofDecimal_eq_ofUnits (m up down : Nat) :
    ofDecimal negative ⟨m, (up : Int) - down⟩ =
      ofUnits negative (m * Nat.pow 10 up * unitsPerOne) (Nat.pow 10 down) := by
  unfold ofDecimal
  dsimp only
  by_cases hm : m = 0
  · rw [if_pos hm, ofUnits_eq_signedZero]
    rw [hm, Nat.zero_mul, Nat.zero_mul]
    exact ten_pow_pos down
  rw [if_neg hm]
  by_cases hlarge : (Decimal.exponentRange : Int) < (up : Int) - down
  · rw [if_pos hlarge, ofUnits_eq_infinity_of_le negative (Nat.pos_of_ne_zero hm)]
    unfold Decimal.exponentRange at hlarge
    omega
  rw [if_neg hlarge]
  by_cases hsmall : (up : Int) - down < -(Decimal.exponentRange + (m.log2 + 1) : Nat)
  · rw [if_pos hsmall, ofUnits_eq_signedZero_of_le]
    unfold Decimal.exponentRange at hsmall
    unfold unitExponent
    omega
  rw [if_neg hsmall]
  -- In range, the ratio is the same one, reduced by the smaller power.
  by_cases hsign : (0 : Int) ≤ (up : Int) - down
  · rw [if_pos hsign, ← ofUnits_scale negative _ _ (ten_pow_pos down), Nat.one_mul,
      Nat.mul_right_comm _ unitsPerOne, Nat.mul_assoc m, ← ten_pow_add,
      show ((up : Int) - down).toNat + down = up by omega]
  · rw [if_neg hsign, ← ofUnits_scale negative _ _ (ten_pow_pos up), ← ten_pow_add,
      Nat.mul_right_comm _ unitsPerOne, show (-((up : Int) - down)).toNat + up = down by omega]

/-- Zeros at the end of the digits may as well be in the exponent. -/
theorem ofDecimal_shift (m k : Nat) (exponent : Int) :
    ofDecimal negative ⟨m * Nat.pow 10 k, exponent⟩ = ofDecimal negative ⟨m, exponent + k⟩ := by
  have hleft := ofDecimal_eq_ofUnits negative (m * Nat.pow 10 k) exponent.toNat (-exponent).toNat
  have hright := ofDecimal_eq_ofUnits negative m (k + exponent.toNat) (-exponent).toNat
  rw [show (exponent.toNat : Int) - ((-exponent).toNat : Nat) = exponent by omega] at hleft
  rw [show ((k + exponent.toNat : Nat) : Int) - ((-exponent).toNat : Nat) = exponent + k by omega]
    at hright
  rw [hleft, hright, ten_pow_add, ← Nat.mul_assoc]

theorem ofDecimal_zero (exponent : Int) : ofDecimal negative ⟨0, exponent⟩ = signedZero negative :=
  if_pos rfl

variable {units : Nat} (valid : IsMagnitude units)

/-- The decimals that read as a count of units do so under either sign. -/
theorem ofDecimal_of_readsAs {d : Decimal} (h : Decimal.readsAs units d = true) :
    ofDecimal negative d = .finite negative units valid := by
  rcases d with ⟨m, exponent⟩
  have hexponent : exponent = (exponent.toNat : Int) - ((-exponent).toNat : Nat) := by omega
  unfold Decimal.readsAs at h
  rw [hexponent, ofDecimal_eq_ofUnits] at h ⊢
  split at h
  · rename_i sign found valid' hfound
    have hsign : sign = false := by
      unfold ofUnits at hfound
      split at hfound
      · cases hfound
        rfl
      · cases hfound
    subst hsign
    cases eq_of_beq h
    exact ofUnits_of_eq_finite negative hfound
  · exact absurd h Bool.false_ne_true

/-- A whole number of units is read as that, written with decimals of which one unit takes
    a whole number too. -/
theorem ofDecimal_of_mul_unitsPerOne (unit places : Nat)
    (h : unit * unitsPerOne = Nat.pow 10 places) :
    ofDecimal negative ⟨units * unit, -(places : Int)⟩ = .finite negative units valid := by
  have hvalue := ofDecimal_eq_ofUnits negative (units * unit) 0 places
  rw [show Nat.pow 10 0 = 1 from rfl, Nat.mul_one, Nat.mul_assoc, h,
    show ((0 : Nat) : Int) - places = -places by omega] at hvalue
  rw [hvalue]
  exact ofUnits_eq_finite negative valid (roundRatio_mul (ten_pow_pos places) valid.1)

/-- All decimals of a count of units are read as that. -/
theorem ofDecimal_exact :
    ofDecimal negative (Decimal.exact units) = .finite negative units valid :=
  ofDecimal_of_mul_unitsPerOne negative valid _ _ five_pow_mul_unitsPerOne

/-- The shortest decimal for a count of units is read as that. -/
theorem ofDecimal_shortest :
    ofDecimal negative (Decimal.shortest units) = .finite negative units valid := by
  rw [Decimal.shortest_def]
  dsimp only
  split
  · exact ofDecimal_of_readsAs negative valid (List.find?_some ‹_›)
  · exact ofDecimal_exact negative valid

end Binary64

end TextGrammar
