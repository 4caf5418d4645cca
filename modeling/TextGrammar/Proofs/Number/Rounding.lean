import TextGrammar.Number.Binary64

/-!
# Rounding

What rounding does to the order of numbers, and which sums and differences it
leaves alone.

A count of units is short when it has at most 53 significant bits. Rounding gives
short counts, changes no short count, and never turns the order of two ratios
around. These three facts are all that is needed to compare rounded results:
whatever lies on one side of a short count before rounding lies on the same side
after it.

Sums and differences of short counts are short again when all of them are whole
multiples of one power of two and none exceeds 2 ^ 53 times that power. Arithmetic
with integers that are not too large is the case of multiples of one.

Numbers that are finite and not below zero are dealt with by their counts of units
from here on, so that the two zeros are one.

## Main definitions

* `Number.IsShort`: At most 53 significant bits.
* `Binary64.HasUnits`: A finite number that is not below zero, by its units.
* `Binary64.belowOne`, `Binary64.IsDraw`: The greatest number below one, and the numbers
  from zero on that are not above it.

## Theorems

* `Number.roundRatio_mul`: A short count is not changed.
* `Number.roundRatio_mono`: Rounding keeps the order.
* `Number.isShort_of_dvd`, `Number.isShort_sub`: Multiples of a power of two.
* `Binary64.hasUnits_add`, `Binary64.hasUnits_sub`, `Binary64.hasUnits_mul`:
  Arithmetic in units.
* `Binary64.IsDraw.exists_hasUnits`: A draw has fewer units than one.
-/

namespace TextGrammar

namespace Number

/-- At most 53 significant bits: all bits under the leading 53 are zero. -/
def IsShort (units : Nat) : Prop := Nat.pow 2 (units.log2 - 52) ∣ units

theorem div_le_roundHalfEven (num den : Nat) : num / den ≤ roundHalfEven num den := by
  unfold roundHalfEven
  dsimp only
  split
  · omega
  · split
    · omega
    · split <;> omega

/-- Rounding to an integer keeps the order. -/
theorem roundHalfEven_mono {num more den : Nat} (hle : num ≤ more) :
    roundHalfEven num den ≤ roundHalfEven more den := by
  have hquot : num / den ≤ more / den := Nat.div_le_div_right hle
  by_cases hsame : num / den = more / den
  · -- Between the same two integers, the remainders are in order.
    have hsplit := Nat.div_add_mod num den
    have hsplit' := Nat.div_add_mod more den
    rw [hsame] at hsplit
    have hrem : num % den ≤ more % den := by omega
    unfold roundHalfEven
    dsimp only
    rw [hsame]
    by_cases hdown : 2 * (more % den) < den
    · have hbelow : 2 * (num % den) < den := by omega
      exact Nat.le_of_eq ((if_pos hbelow).trans (if_pos hdown).symm)
    · by_cases hup : den < 2 * (more % den)
      · rw [if_neg hdown, if_pos hup]
        split
        · omega
        · split
          · omega
          · split <;> omega
      · rw [if_neg hdown, if_neg hup, if_neg (show ¬ den < 2 * (num % den) by omega)]
        split <;> split <;> omega
  · -- Otherwise the greater one has already passed the integer above the other.
    have := roundHalfEven_le num den
    have := div_le_roundHalfEven more den
    omega

theorem roundHalfEven_mul (m : Nat) {den : Nat} (hden : 0 < den) :
    roundHalfEven (m * den) den = m := by
  have hquot : m * den / den = m := Nat.mul_div_cancel m hden
  have hrem : m * den % den = 0 := Nat.mul_mod_left m den
  unfold roundHalfEven
  dsimp only
  rw [hquot, hrem, if_pos (by omega)]

theorem isShort_zero : IsShort 0 := Nat.dvd_zero _

/-- A short count is not changed by rounding. -/
theorem roundRatio_mul {m den : Nat} (hden : 0 < den) (hm : IsShort m) :
    roundRatio (m * den) den = m := by
  unfold roundRatio
  dsimp only
  rw [Nat.mul_div_cancel m hden]
  rcases hm with ⟨k, hk⟩
  have hstep : 0 < Nat.pow 2 (m.log2 - 52) := Nat.two_pow_pos _
  generalize Nat.pow 2 (m.log2 - 52) = step at hk hstep ⊢
  -- The count is a whole number of steps, and so has no remainder.
  have hnum : m * den = k * (den * step) := by
    rw [hk, Nat.mul_comm step k, Nat.mul_assoc, Nat.mul_comm step den]
  rw [hnum, roundHalfEven_mul k (Nat.mul_pos hden hstep), hk, Nat.mul_comm]

/-- Rounding keeps the order of ratios with one denominator. -/
theorem roundRatio_mono {num more den : Nat} (hle : num ≤ more) :
    roundRatio num den ≤ roundRatio more den := by
  have hquot : num / den ≤ more / den := Nat.div_le_div_right hle
  unfold roundRatio
  dsimp only
  by_cases hlog : (num / den).log2 - 52 = (more / den).log2 - 52
  · rw [hlog]
    exact Nat.mul_le_mul_right _ (roundHalfEven_mono hle)
  · -- The steps differ, so a power of two lies between the two ratios, and it is a
    -- whole number of steps of either.
    have hne : more / den ≠ 0 := by
      intro h0
      have h0' : num / den = 0 := Nat.le_zero.1 (h0 ▸ hquot)
      exact hlog (by rw [h0, h0'])
    have hmono : (num / den).log2 ≤ (more / den).log2 := by
      by_cases h0 : num / den = 0
      · rw [h0, Nat.log2_zero]
        exact Nat.zero_le _
      · exact (Nat.le_log2 hne).2 (Nat.le_trans (Nat.log2_self_le h0) hquot)
    obtain ⟨small, hsmall⟩ : ∃ small, small = (num / den).log2 - 52 := ⟨_, rfl⟩
    obtain ⟨large, hlarge⟩ : ∃ large, large = (more / den).log2 - 52 := ⟨_, rfl⟩
    rw [← hsmall, ← hlarge, Nat.pow_eq, Nat.pow_eq]
    have htop : 2 ^ (52 + large) ≤ more / den := by
      rw [show 52 + large = (more / den).log2 by omega]
      exact Nat.log2_self_le hne
    have hbottom : num / den < 2 ^ (52 + large) := by
      refine Nat.lt_of_lt_of_le Nat.lt_log2_self (Nat.pow_le_pow_right (by omega) ?_)
      omega
    have hlow : roundHalfEven num (den * 2 ^ small) * 2 ^ small ≤ 2 ^ (52 + large) := by
      have hround := roundHalfEven_le num (den * 2 ^ small)
      rw [← Nat.div_div_eq_div_mul] at hround
      have hsplit : 2 ^ (52 + large) = 2 ^ (52 + large - small) * 2 ^ small := by
        rw [← Nat.pow_add]
        congr 1
        omega
      have hless : num / den / 2 ^ small < 2 ^ (52 + large - small) :=
        Nat.div_lt_of_lt_mul (by rw [Nat.mul_comm]; omega)
      rw [hsplit]
      exact Nat.mul_le_mul_right _ (by omega)
    have hhigh : 2 ^ (52 + large) ≤ roundHalfEven more (den * 2 ^ large) * 2 ^ large := by
      have hround := div_le_roundHalfEven more (den * 2 ^ large)
      rw [← Nat.div_div_eq_div_mul] at hround
      have hpos : 0 < 2 ^ large := Nat.two_pow_pos large
      have hmore : 2 ^ 52 ≤ more / den / 2 ^ large := by
        rw [Nat.le_div_iff_mul_le hpos, ← Nat.pow_add]
        exact htop
      rw [Nat.pow_add]
      exact Nat.mul_le_mul_right _ (Nat.le_trans hmore hround)
    exact Nat.le_trans hlow hhigh

/-- A ratio that is at most a short count is so after rounding. -/
theorem roundRatio_le {num den m : Nat} (hden : 0 < den) (hm : IsShort m) (hle : num ≤ m * den) :
    roundRatio num den ≤ m := by
  rw [← roundRatio_mul hden hm]
  exact roundRatio_mono hle

/-- The same for counts. -/
theorem roundRatio_one_le {n m : Nat} (hm : IsShort m) (hle : n ≤ m) : roundRatio n 1 ≤ m :=
  roundRatio_le Nat.one_pos hm (by omega)

theorem roundRatio_one {m : Nat} (hm : IsShort m) : roundRatio m 1 = m := by
  have h := roundRatio_mul Nat.one_pos hm
  rwa [Nat.mul_one] at h

/-- A multiple of a power of two is short up to 2 ^ 53 times that power. -/
theorem isShort_of_dvd {grain n : Nat} (hdvd : Nat.pow 2 grain ∣ n)
    (hle : n ≤ Nat.pow 2 53 * Nat.pow 2 grain) : IsShort n := by
  rcases hdvd with ⟨k, rfl⟩
  have hpos : 0 < Nat.pow 2 grain := Nat.two_pow_pos grain
  have hk : k ≤ Nat.pow 2 53 := by
    rw [Nat.mul_comm] at hle
    exact Nat.le_of_mul_le_mul_right hle hpos
  rw [Nat.mul_comm]
  exact two_pow_log2_dvd k grain hk

/-- What a multiple of a power of two leaves of a short count is short, if the count
    is at most 2 ^ 53 times that power. The count itself need not be a multiple. -/
theorem isShort_sub {grain n m : Nat} (hn : IsShort n) (hle : n ≤ Nat.pow 2 53 * Nat.pow 2 grain)
    (hm : Nat.pow 2 grain ∣ m) (hmn : m ≤ n) : IsShort (n - m) := by
  have hlt : n < Nat.pow 2 53 * Nat.pow 2 (n.log2 - 52) := by
    rw [Nat.pow_eq, Nat.pow_eq, ← Nat.pow_add]
    exact Nat.lt_of_lt_of_le Nat.lt_log2_self (Nat.pow_le_pow_right (by omega) (by omega))
  -- Whichever of the two powers is smaller divides both numbers.
  by_cases hfine : n.log2 - 52 ≤ grain
  · have hm' : Nat.pow 2 (n.log2 - 52) ∣ m := Nat.dvd_trans (Nat.pow_dvd_pow 2 hfine) hm
    exact isShort_of_dvd (Nat.dvd_sub hn hm') (by omega)
  · have hn' : Nat.pow 2 grain ∣ n := Nat.dvd_trans (Nat.pow_dvd_pow 2 (by omega)) hn
    exact isShort_of_dvd (Nat.dvd_sub hn' hm) (by omega)

/-- Below a power of two, the next short count is one step of the binade under it
    lower. -/
theorem le_of_isShort {n exponent : Nat} (hexponent : 53 ≤ exponent) (hn : IsShort n)
    (hlt : n < Nat.pow 2 exponent) : n ≤ Nat.pow 2 exponent - Nat.pow 2 (exponent - 53) := by
  unfold IsShort at hn
  rw [Nat.pow_eq] at hn hlt
  rw [Nat.pow_eq, Nat.pow_eq]
  by_cases h0 : n = 0
  · omega
  have hlog : n.log2 < exponent := (Nat.log2_lt h0).2 hlt
  by_cases htop : n.log2 - 52 = exponent - 53
  · -- In that binade the step divides both numbers.
    rw [htop] at hn
    have hgap : 2 ^ (exponent - 53) ∣ 2 ^ exponent - n :=
      Nat.dvd_sub (Nat.pow_dvd_pow 2 (by omega)) hn
    have := Nat.le_of_dvd (by omega) hgap
    omega
  · -- In a lower one, the number is at most half of the power.
    have hhalf : n < 2 ^ (exponent - 1) :=
      Nat.lt_of_lt_of_le Nat.lt_log2_self (Nat.pow_le_pow_right (by omega) (by omega))
    have hstep : 2 ^ (exponent - 53) ≤ 2 ^ (exponent - 1) :=
      Nat.pow_le_pow_right (by omega) (by omega)
    have hdouble : 2 * 2 ^ (exponent - 1) = 2 ^ exponent := by
      rw [← Nat.pow_add_one']
      congr 1
      omega
    omega

/-- The units of the greatest number below one. -/
def unitsBelowOne : Nat := unitsPerOne - Nat.pow 2 (unitExponent - 53)

theorem le_unitsBelowOne {n : Nat} (hn : IsShort n) (hlt : n < unitsPerOne) :
    n ≤ unitsBelowOne := by
  have hexponent : 53 ≤ unitExponent := by decide
  unfold unitsBelowOne
  unfold unitsPerOne at hlt ⊢
  -- The powers are not to be computed.
  generalize unitExponent = exponent at hexponent hlt ⊢
  exact le_of_isShort hexponent hn hlt

theorem unitsBelowOne_le : unitsBelowOne ≤ unitsPerOne := Nat.sub_le _ _

end Number

open Number

namespace Binary64

/-- A finite number that is not below zero, by its units. Both zeros have none. -/
inductive HasUnits : Binary64 → Nat → Prop
  | intro (negative : Bool) (units : Nat) (valid : IsMagnitude units) (n : Nat)
      (hn : signed negative units = n) : HasUnits (.finite negative units valid) n

/-- A sign only stands where there are no units. -/
theorem eq_of_signed {negative : Bool} {units n : Nat} (h : signed negative units = n) :
    units = n ∧ (negative = true → n = 0) := by
  cases negative <;> simp [signed] at h ⊢ <;> omega

theorem HasUnits.isMagnitude {x : Binary64} {n : Nat} (h : x.HasUnits n) : IsMagnitude n := by
  cases h with
  | intro negative units valid _ hn => exact (eq_of_signed hn).1 ▸ valid

theorem HasUnits.isShort {x : Binary64} {n : Nat} (h : x.HasUnits n) : IsShort n := h.isMagnitude.1

theorem HasUnits.lt_unitLimit {x : Binary64} {n : Nat} (h : x.HasUnits n) : n < unitLimit :=
  h.isMagnitude.2

theorem hasUnits_zero : HasUnits 0 0 := .intro _ _ _ _ rfl

/-- The number nearest to a ratio, unless that is infinite. A sign does not matter
    for zero. -/
theorem hasUnits_ofUnits {negative : Bool} {num den : Nat} (hsign : negative = true → num = 0)
    (hlt : roundRatio num den < unitLimit) :
    (ofUnits negative num den).HasUnits (roundRatio num den) := by
  unfold ofUnits
  rw [dif_pos hlt]
  refine .intro _ _ _ _ ?_
  cases negative with
  | false => simp [signed]
  | true =>
      have hzero : roundRatio num den = 0 := by
        rw [hsign rfl]
        simp [roundRatio, roundHalfEven]
      simp [signed, hzero]

theorem add_def (x y : Binary64) : x + y = add x y := rfl

theorem sub_def (x y : Binary64) : x - y = add x y.neg := rfl

theorem mul_def (x y : Binary64) : x * y = mul x y := rfl

theorem le_iff {x y : Binary64} {a b : Nat} (hx : x.HasUnits a) (hy : y.HasUnits b) :
    x ≤ y ↔ a ≤ b := by
  cases hx with
  | intro negative units valid _ hx =>
      cases hy with
      | intro negative' units' valid' _ hy =>
          change (decide (signed negative units < signed negative' units') ||
            decide (signed negative units = signed negative' units')) = true ↔ _
          rw [hx, hy, Bool.or_eq_true, decide_eq_true_eq, decide_eq_true_eq]
          omega

theorem lt_iff {x y : Binary64} {a b : Nat} (hx : x.HasUnits a) (hy : y.HasUnits b) :
    x < y ↔ a < b := by
  cases hx with
  | intro negative units valid _ hx =>
      cases hy with
      | intro negative' units' valid' _ hy =>
          change decide (signed negative units < signed negative' units') = true ↔ _
          rw [hx, hy, decide_eq_true_eq]
          omega

/-- A sum other than zero is the number nearest to that of the units. -/
theorem add_eq_ofUnits {x y : Binary64} {a b : Nat} (hx : x.HasUnits a) (hy : y.HasUnits b)
    (hne : a + b ≠ 0) : x + y = ofUnits false (a + b) 1 := by
  cases hx with
  | intro negative units valid _ hx =>
      cases hy with
      | intro negative' units' valid' _ hy =>
          have habs : ((a : Int) + b).natAbs = a + b := by omega
          have hsign : decide ((a : Int) + b < 0) = false := decide_eq_false (by omega)
          rw [add_def]
          unfold add
          dsimp only
          rw [hx, hy, if_neg (by omega), habs, hsign]

/-- A sum of nothing is nothing. -/
theorem hasUnits_add_zero {x y : Binary64} (hx : x.HasUnits 0) (hy : y.HasUnits 0) :
    (x + y).HasUnits 0 := by
  cases hx with
  | intro negative units valid _ hx =>
      cases hy with
      | intro negative' units' valid' _ hy =>
          rw [add_def]
          unfold add
          dsimp only
          rw [hx, hy, if_pos (by omega)]
          refine .intro _ _ _ _ ?_
          cases negative <;> cases negative' <;> rfl

/-- A sum in units, unless it is infinite. -/
theorem hasUnits_add {x y : Binary64} {a b : Nat} (hx : x.HasUnits a) (hy : y.HasUnits b)
    (hlt : roundRatio (a + b) 1 < unitLimit) : (x + y).HasUnits (roundRatio (a + b) 1) := by
  by_cases hne : a + b = 0
  · rcases Nat.add_eq_zero_iff.1 hne with ⟨rfl, rfl⟩
    rw [roundRatio_one isShort_zero]
    exact hasUnits_add_zero hx hy
  · rw [add_eq_ofUnits hx hy hne]
    exact hasUnits_ofUnits (fun hneg => absurd hneg Bool.false_ne_true) hlt

/-- The difference to a smaller number in units. It is never infinite. -/
theorem hasUnits_sub {x y : Binary64} {a b : Nat} (hx : x.HasUnits a) (hy : y.HasUnits b)
    (hba : b < a) : (x - y).HasUnits (roundRatio (a - b) 1) := by
  have hle : roundRatio (a - b) 1 ≤ a := roundRatio_one_le hx.isShort (by omega)
  have hlt := Nat.lt_of_le_of_lt hle hx.lt_unitLimit
  cases hx with
  | intro negative units valid _ hx =>
      cases hy with
      | intro negative' units' valid' _ hy =>
          have hneg : signed (!negative') units' = -(b : Int) := by
            rw [← hy]
            cases negative' <;> simp [signed]
          have habs : ((a : Int) + -(b : Int)).natAbs = a - b := by omega
          rw [sub_def]
          unfold neg add
          dsimp only
          rw [hx, hneg, if_neg (by omega), habs]
          refine hasUnits_ofUnits (fun h => ?_) hlt
          have := of_decide_eq_true h
          omega

/-- A product in units, unless it is infinite. -/
theorem hasUnits_mul {x y : Binary64} {a b : Nat} (hx : x.HasUnits a) (hy : y.HasUnits b)
    (hlt : roundRatio (a * b) unitsPerOne < unitLimit) :
    (x * y).HasUnits (roundRatio (a * b) unitsPerOne) := by
  cases hx with
  | intro negative units valid _ hx =>
      cases hy with
      | intro negative' units' valid' _ hy =>
          rcases eq_of_signed hx with ⟨rfl, hx0⟩
          rcases eq_of_signed hy with ⟨rfl, hy0⟩
          rw [mul_def]
          unfold mul
          dsimp only
          refine hasUnits_ofUnits (fun hneg => ?_) hlt
          -- Where one of the signs stands, the product has no units.
          cases negative with
          | true => rw [hx0 rfl, Nat.zero_mul]
          | false =>
              cases negative' with
              | true => rw [hy0 rfl, Nat.mul_zero]
              | false => exact absurd hneg nofun

/-- What a part of a number comes to in units. It is at most the number. -/
theorem hasUnits_part {x y : Binary64} {a b : Nat} (hx : x.HasUnits a) (ha : a ≤ unitsPerOne)
    (hy : y.HasUnits b) :
    (x * y).HasUnits (roundRatio (a * b) unitsPerOne) ∧ roundRatio (a * b) unitsPerOne ≤ b := by
  have hle : roundRatio (a * b) unitsPerOne ≤ b := by
    refine roundRatio_le unitsPerOne_pos hy.isShort ?_
    rw [Nat.mul_comm b]
    exact Nat.mul_le_mul_right b ha
  exact ⟨hasUnits_mul hx hy (Nat.lt_of_le_of_lt hle hy.lt_unitLimit), hle⟩

/-- The greatest number below one. -/
def belowOne : Binary64 := ofRatio (Nat.pow 2 53 - 1) (Nat.pow 2 53)

/-- A number above zero, by its units. -/
theorem hasUnits_ofRatio {num den n : Nat} (hround : roundRatio (num * unitsPerOne) den = n)
    (hlt : n < unitLimit) : (ofRatio num den).HasUnits n := by
  rw [← hround] at hlt
  have h := hasUnits_ofUnits (fun hneg => absurd hneg Bool.false_ne_true) hlt
  rwa [hround] at h

theorem hasUnits_one : HasUnits 1 unitsPerOne := by
  have hround : roundRatio (1 * unitsPerOne) 1 = unitsPerOne := by decide +kernel
  have hlt : unitsPerOne < unitLimit := by decide +kernel
  exact hasUnits_ofRatio hround hlt

theorem hasUnits_belowOne : belowOne.HasUnits unitsBelowOne := by
  have hround : roundRatio ((Nat.pow 2 53 - 1) * unitsPerOne) (Nat.pow 2 53) =
      unitsBelowOne := by decide +kernel
  have hlt : unitsBelowOne < unitLimit := by decide +kernel
  exact hasUnits_ofRatio hround hlt

/-- A number that lies from zero up to but not including one, as draws do. -/
def IsDraw (x : Binary64) : Prop := 0 ≤ x ∧ x < 1

instance (x : Binary64) : Decidable x.IsDraw := inferInstanceAs (Decidable (_ ∧ _))

theorem not_infinity_lt (x : Binary64) : ¬ infinity false < x := by
  cases x <;> exact Bool.false_ne_true

theorem finite_nonneg {negative : Bool} {units : Nat} {valid : IsMagnitude units}
    (h : 0 ≤ finite negative units valid) : 0 ≤ signed negative units := by
  change (decide (signed false 0 < signed negative units) ||
    decide (signed false 0 = signed negative units)) = true at h
  rw [Bool.or_eq_true, decide_eq_true_eq, decide_eq_true_eq] at h
  simp only [signed] at h ⊢
  omega

/-- A draw is a finite number, and at most the greatest one below one. -/
theorem IsDraw.exists_hasUnits {x : Binary64} (hx : x.IsDraw) :
    ∃ n, x.HasUnits n ∧ n ≤ unitsBelowOne := by
  rcases hx with ⟨hnonneg, hlt⟩
  cases x with
  | nan => exact absurd hnonneg Bool.false_ne_true
  | infinity negative =>
      cases negative with
      | true => exact absurd hnonneg Bool.false_ne_true
      | false => exact absurd hlt (not_infinity_lt 1)
  | finite negative units valid =>
      obtain ⟨n, hn⟩ := Int.eq_ofNat_of_zero_le (finite_nonneg hnonneg)
      have hunits : HasUnits (.finite negative units valid) n := .intro _ _ _ _ hn
      have hone := (lt_iff hunits hasUnits_one).1 hlt
      exact ⟨n, hunits, le_unitsBelowOne hunits.isShort hone⟩

theorem isDraw_zero : IsDraw 0 :=
  ⟨(le_iff hasUnits_zero hasUnits_zero).2 (Nat.le_refl 0),
    (lt_iff hasUnits_zero hasUnits_one).2 unitsPerOne_pos⟩

theorem isDraw_belowOne : IsDraw belowOne := by
  have hlt : unitsBelowOne < unitsPerOne := by decide +kernel
  exact ⟨(le_iff hasUnits_zero hasUnits_belowOne).2 (Nat.zero_le _),
    (lt_iff hasUnits_belowOne hasUnits_one).2 hlt⟩

end Binary64

end TextGrammar
