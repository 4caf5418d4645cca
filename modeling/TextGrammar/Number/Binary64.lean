/-!
# Double Precision Numbers

The numbers a grammar computes with: the IEEE 754 binary64 values, written so
that every operation is exact arithmetic on natural numbers followed by one
rounding.

Every finite value is a whole multiple of the smallest positive one,
`2 ^ -1074`. A finite number is therefore a sign and a count of such units,
and the counts that occur are those with at most 53 significant bits below
`2 ^ 2098`. The sum of two numbers is then an integer sum, their product is a
ratio whose denominator is the unit, and the only place where anything is
lost is `roundRatio`.

The sign is kept beside the count because zero has two signs, and the two are
told apart by division and by the printed text.

Not a number is kept with the object that holds it. Comparison by value never
looks at that, but data are compared by what they are before they are compared
by what they say, so one such object is the same as itself and different from
all others.

Powers are written out as `Nat.pow`, since the sign for them stands for another
term where a library of algebra is imported.

## Main definitions

* `IsMagnitude`: The counts of units that a finite number can have.
* `NanObject`: The object that holds a value which is not a number.
* `Binary64`: Not a number, the two infinities, and the finite numbers.
* `roundRatio`: The count nearest to a ratio, ties to the even neighbour.
* `Binary64.ofUnits`: The number nearest to a ratio of units.
* `Binary64.add`, `Binary64.mul`, `Binary64.div`, `Binary64.mod`: Arithmetic.
* `Binary64.lt`, `Binary64.le`, `Binary64.equal`: Comparison by value, in
  which not a number is unequal to everything, itself included.
* `Binary64.isSameNan`: Not a number on both sides, and one object.
* `Binary64.under`: The number that is found under a name.
* `Binary64.ofInt?`: An integer as a number, when it is not too large.

## Theorems

* `two_pow_log2_dvd`: A short multiple of a power of two has few significant
  bits.
* `two_pow_dvd_roundRatio`: Rounding leaves at most 53 significant bits.
* `Binary64.not_lt_zero_of_ofInt?`: An integer that is not negative is not below
  zero as a number either.
-/

namespace TextGrammar

namespace Number

/-- The number of units in one, as a power of two: the unit is `2 ^ -1074`. -/
def unitExponent : Nat := 1074

/-- The number of units in one. -/
def unitsPerOne : Nat := Nat.pow 2 unitExponent

/-- Finite magnitudes stay below this many units, which is `2 ^ 1024`. -/
def unitLimit : Nat := Nat.pow 2 (unitExponent + 1024)

/-- A count of units with at most 53 significant bits, below the limit. The
    first condition says that all bits under the leading 53 are zero. -/
def IsMagnitude (units : Nat) : Prop :=
  Nat.pow 2 (units.log2 - 52) ∣ units ∧ units < unitLimit

theorem unitsPerOne_pos : 0 < unitsPerOne := by
  unfold unitsPerOne
  -- The power is not to be computed.
  generalize unitExponent = n
  exact Nat.two_pow_pos n

theorem unitLimit_pos : 0 < unitLimit := by
  unfold unitLimit
  generalize unitExponent + 1024 = n
  exact Nat.two_pow_pos n

theorem isMagnitude_zero : IsMagnitude 0 :=
  ⟨Nat.dvd_zero _, unitLimit_pos⟩

/-- The integer nearest to `num / den`, ties to the even one. -/
def roundHalfEven (num den : Nat) : Nat :=
  let quotient := num / den
  let twice := 2 * (num % den)
  if twice < den then quotient
  else if den < twice then quotient + 1
  else if quotient % 2 = 0 then quotient
  else quotient + 1

/-- The integer nearest to `num / den` among those with at most 53 significant
    bits, ties to the one whose last significant bit is zero. -/
def roundRatio (num den : Nat) : Nat :=
  let step := Nat.pow 2 ((num / den).log2 - 52)
  roundHalfEven num (den * step) * step

theorem roundHalfEven_le (num den : Nat) : roundHalfEven num den ≤ num / den + 1 := by
  unfold roundHalfEven
  dsimp only
  split
  · omega
  · split
    · omega
    · split <;> omega

/-- A multiple of `2 ^ s` by a factor of at most 53 bits has at most 53
    significant bits. The factor `2 ^ 53` itself is allowed, being a power of
    two, and that is the case a rounding up can run into. -/
theorem two_pow_log2_dvd (m s : Nat) (hm : m ≤ Nat.pow 2 53) :
    Nat.pow 2 ((m * Nat.pow 2 s).log2 - 52) ∣ m * Nat.pow 2 s := by
  rw [Nat.pow_eq] at hm
  rw [Nat.pow_eq, Nat.pow_eq]
  by_cases h0 : m = 0
  · simp [h0]
  by_cases htop : m = 2 ^ 53
  · rw [htop, ← Nat.pow_add, Nat.log2_two_pow]
    exact Nat.pow_dvd_pow 2 (by omega)
  · have hpos : 0 < 2 ^ s := Nat.two_pow_pos s
    have hne : m * 2 ^ s ≠ 0 := Nat.mul_ne_zero h0 (by omega)
    have hlt : m * 2 ^ s < 2 ^ (53 + s) := by
      rw [Nat.pow_add]
      exact Nat.mul_lt_mul_of_pos_right (by omega) hpos
    have hlog : (m * 2 ^ s).log2 < 53 + s := (Nat.log2_lt hne).2 hlt
    exact Nat.dvd_trans (Nat.pow_dvd_pow 2 (by omega)) (Nat.dvd_mul_left _ _)

/-- Rounding a ratio leaves at most 53 significant bits. -/
theorem two_pow_dvd_roundRatio (num den : Nat) :
    Nat.pow 2 ((roundRatio num den).log2 - 52) ∣ roundRatio num den := by
  unfold roundRatio
  dsimp only
  apply two_pow_log2_dvd
  -- The quotient by the step keeps 53 bits, and rounding up adds at most one.
  refine Nat.le_trans (roundHalfEven_le _ _) ?_
  rw [← Nat.div_div_eq_div_mul, Nat.pow_eq, Nat.pow_eq]
  have hq : num / den < 2 ^ ((num / den).log2 + 1) := Nat.lt_log2_self
  have hsplit : 2 ^ ((num / den).log2 + 1) ≤ 2 ^ ((num / den).log2 - 52) * 2 ^ 53 := by
    rw [← Nat.pow_add]
    exact Nat.pow_le_pow_right (by omega) (by omega)
  have := Nat.div_lt_of_lt_mul (Nat.lt_of_lt_of_le hq hsplit)
  omega

end Number

open Number

/-- The object that holds a value which is not a number. A fresh one was made
    for the place where it stands and is found nowhere else. The constant is the
    one that every division and remainder without a value gives. Others are told
    apart by a number, if they were handed in, or by the name under which they
    were found. -/
inductive NanObject where
  | fresh
  | constant
  | given (n : Nat)
  | under (name : String)
deriving DecidableEq

/-- Whether both are one object. A fresh one meets no other. -/
def NanObject.isSame (a b : NanObject) : Bool := a != .fresh && a == b

/-- A double precision number. A finite one is a sign and a count of units of
    `2 ^ -1074`, so that both zeros are present and equal numbers other than
    zero are equal terms. What is not a number is a fresh object unless it is
    said which one. -/
inductive Binary64 where
  | nan (object : NanObject := .fresh)
  | infinity (negative : Bool)
  | finite (negative : Bool) (units : Nat) (valid : IsMagnitude units)

namespace Binary64

/-- The number nearest to `num / den` units, with the given sign. A ratio that
    rounds to the limit or beyond is infinite. -/
def ofUnits (negative : Bool) (num den : Nat) : Binary64 :=
  if h : roundRatio num den < unitLimit then
    .finite negative (roundRatio num den) ⟨two_pow_dvd_roundRatio num den, h⟩
  else
    .infinity negative

/-- The number nearest to the ratio `num / den`. -/
def ofRatio (num den : Nat) : Binary64 :=
  ofUnits false (num * unitsPerOne) den

/-- Zero with a sign. -/
def signedZero (negative : Bool) : Binary64 :=
  .finite negative 0 isMagnitude_zero

/-- A count of units with a sign, as an integer. -/
def signed (negative : Bool) (units : Nat) : Int :=
  if negative then -(units : Int) else units

/-- The number with the other sign. -/
def neg : Binary64 → Binary64
  | .nan _ => .nan .fresh
  | .infinity n => .infinity (!n)
  | .finite n u v => .finite (!n) u v

/-- The number nearest to the sum. A sum of zero is positive unless both terms
    are negative, which for finite terms means two negative zeros. -/
def add : Binary64 → Binary64 → Binary64
  | .nan _, _ => .nan .fresh
  | _, .nan _ => .nan .fresh
  | .infinity m, .infinity n => if m = n then .infinity m else .nan .fresh
  | .infinity m, .finite .. => .infinity m
  | .finite .., .infinity n => .infinity n
  | .finite m a _, .finite n b _ =>
    let sum := signed m a + signed n b
    if sum = 0 then signedZero (m && n) else ofUnits (decide (sum < 0)) sum.natAbs 1

/-- The number nearest to the difference. -/
def sub (x y : Binary64) : Binary64 := add x y.neg

/-- The number nearest to the product. -/
def mul : Binary64 → Binary64 → Binary64
  | .nan _, _ => .nan .fresh
  | _, .nan _ => .nan .fresh
  | .infinity m, .infinity n => .infinity (m != n)
  | .infinity m, .finite n b _ => if b = 0 then .nan .fresh else .infinity (m != n)
  | .finite m a _, .infinity n => if a = 0 then .nan .fresh else .infinity (m != n)
  | .finite m a _, .finite n b _ => ofUnits (m != n) (a * b) unitsPerOne

/-- Not a number, of which there is one constant where the divisor is zero. -/
def nanOver (units : Nat) : Binary64 := .nan (if units = 0 then .constant else .fresh)

/-- The number nearest to the quotient. A number divided by zero is infinite,
    with the sign that the two signs give, and zero by zero is not a number. -/
def div : Binary64 → Binary64 → Binary64
  | .nan _, .finite _ b _ => nanOver b
  | .nan _, _ => .nan .fresh
  | _, .nan _ => .nan .fresh
  | .infinity _, .infinity _ => .nan .fresh
  | .infinity m, .finite n _ _ => .infinity (m != n)
  | .finite m _ _, .infinity n => signedZero (m != n)
  | .finite m a _, .finite n b _ =>
    if b = 0 then (if a = 0 then .nan .constant else .infinity (m != n))
    else ofUnits (m != n) (a * unitsPerOne) b

/-- The remainder of the division truncated toward zero, which has the sign of
    the dividend. There is none by zero and none of an infinity. -/
def mod : Binary64 → Binary64 → Binary64
  | .infinity _, _ => .nan .constant
  | .nan _, .finite _ b _ => nanOver b
  | .nan _, _ => .nan .fresh
  | .finite .., .nan _ => .nan .fresh
  | .finite m a v, .infinity _ => .finite m a v
  | .finite m a _, .finite _ b _ => if b = 0 then .nan .constant else ofUnits m (a % b) 1

/-- Less than, by value. -/
def lt : Binary64 → Binary64 → Bool
  | .nan _, _ => false
  | _, .nan _ => false
  | .infinity m, .infinity n => m && !n
  | .infinity m, .finite .. => m
  | .finite .., .infinity n => !n
  | .finite m a _, .finite n b _ => decide (signed m a < signed n b)

/-- Equal by value: the two zeros are equal, and not a number equals nothing. -/
def equal : Binary64 → Binary64 → Bool
  | .infinity m, .infinity n => m == n
  | .finite m a _, .finite n b _ => decide (signed m a = signed n b)
  | _, _ => false

/-- Not a number. -/
def isNan : Binary64 → Bool
  | .nan _ => true
  | _ => false

/-- Both are not a number, and held by one object. -/
def isSameNan : Binary64 → Binary64 → Bool
  | .nan a, .nan b => a.isSame b
  | _, _ => false

/-- The number found under a name. A fresh object that has been stored is from
    then on the one that its name stands for. -/
def under (name : String) : Binary64 → Binary64
  | .nan .fresh => .nan (.under name)
  | x => x

/-- Less than or equal, by value. -/
def le (x y : Binary64) : Bool := x.lt y || x.equal y

instance : Zero Binary64 := ⟨signedZero false⟩
instance : Inhabited Binary64 := ⟨0⟩
instance : One Binary64 := ⟨ofRatio 1 1⟩
instance : Add Binary64 := ⟨add⟩
instance : Sub Binary64 := ⟨sub⟩
instance : Mul Binary64 := ⟨mul⟩
instance : Div Binary64 := ⟨div⟩
instance : Mod Binary64 := ⟨mod⟩
instance : Neg Binary64 := ⟨neg⟩
instance : LT Binary64 := ⟨fun x y => x.lt y = true⟩
instance : LE Binary64 := ⟨fun x y => x.le y = true⟩
instance : DecidableLT Binary64 := fun x y => inferInstanceAs (Decidable (x.lt y = true))
instance : DecidableLE Binary64 := fun x y => inferInstanceAs (Decidable (x.le y = true))

deriving instance DecidableEq for Binary64

/-- The second number when it is smaller than the first, else the first. -/
def least (x y : Binary64) : Binary64 := if y < x then y else x

/-- The second number when it is greater than the first, else the first. -/
def greatest (x y : Binary64) : Binary64 := if x < y then y else x

/-- Holds of every number but the two zeros. Not a number counts as nonzero. -/
def isNonzero (x : Binary64) : Bool := !x.equal 0

/-- The exact integer a number stands for, when it stands for one. -/
def toInt? : Binary64 → Option Int
  | .finite n u _ =>
    if u % unitsPerOne = 0 then some (signed n (u / unitsPerOne)) else none
  | _ => none

/-- The number itself, if it is finite. -/
def toFinite? : Binary64 → Option Binary64
  | .finite n u v => some (.finite n u v)
  | _ => none

/-- The number nearest to an integer, or nothing when that would be infinite. -/
def ofInt? (i : Int) : Option Binary64 :=
  (ofUnits (decide (i < 0)) (i.natAbs * unitsPerOne) 1).toFinite?

theorem eq_of_toFinite? (x y : Binary64) (h : x.toFinite? = some y) : y = x := by
  cases x with
  | nan object => exact absurd h (by simp only [toFinite?, reduceCtorEq, not_false_eq_true])
  | infinity n => exact absurd h (by simp only [toFinite?, reduceCtorEq, not_false_eq_true])
  | finite n u v => exact (Option.some.inj h).symm

theorem isNan_ofUnits (negative : Bool) (num den : Nat) :
    (ofUnits negative num den).isNan = false := by
  unfold ofUnits
  split
  · rfl
  · rfl

theorem finite_lt_zero (negative : Bool) (units : Nat) (valid : IsMagnitude units) :
    finite negative units valid < 0 ↔ signed negative units < 0 := by
  change decide (signed negative units < signed false 0) = true ↔ _
  rw [decide_eq_true_eq]
  exact Iff.rfl

theorem not_ofUnits_lt_zero (num den : Nat) : ¬ ofUnits false num den < 0 := by
  unfold ofUnits
  split
  · refine fun h => absurd ((finite_lt_zero false (roundRatio num den) _).1 h) ?_
    simp only [signed, Bool.false_eq_true, if_false]
    omega
  · exact Bool.false_ne_true

/-- An integer that is not negative is not below zero as a number either. -/
theorem not_lt_zero_of_ofInt? (i : Int) (x : Binary64) (hi : ¬ i < 0) (h : ofInt? i = some x) :
    ¬ x < 0 := by
  rw [eq_of_toFinite? _ _ h, decide_eq_false hi]
  exact not_ofUnits_lt_zero _ _

end Binary64

end TextGrammar
