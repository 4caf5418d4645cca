import TextGrammar.Number.Binary64

/-!
# Decimal Numerals

Decimal fractions with an exponent of ten, and the passage between them and
binary numbers in both directions.

A numeral is read by rounding its exact value. A number is written with the
fewest digits that read back as that number, and among those with the numeral
nearest to it. The search goes through the numbers of significant digits in
turn and tests only the two neighbours of the exact value on each decimal
grid. Seventeen digits always suffice. The exact expansion stands at the end
of the search, so that reading back holds of every answer without an appeal
to that fact.

## Main definitions

* `Decimal`: An integer times a power of ten.
* `Binary64.ofDecimal`: The number nearest to a decimal numeral.
* `Decimal.leadingExponent`: The power of ten of the first significant digit.
* `Decimal.neighbours`: The two numerals around a number on a decimal grid,
  the nearer one first.
* `Decimal.shortest`: The fewest digits that read back.
-/

namespace TextGrammar

/-- The value `digits * 10 ^ exponent`. -/
structure Decimal where
  digits : Nat
  exponent : Int
deriving DecidableEq

open Number

/-- Outside these powers of ten a numeral is too large for a finite number, or
    too small for one above zero, however it is rounded. -/
def Decimal.exponentRange : Nat := 400

/-- The number nearest to a decimal numeral. Exponents so extreme that the
    outcome is settled by them are answered without computing the power of
    ten: a nonzero numeral is then at least `10 ^ 400`, or less than
    `10 ^ -400` because `digits` is less than `10` to its number of bits. -/
def Binary64.ofDecimal (negative : Bool) (d : Decimal) : Binary64 :=
  if d.digits = 0 then signedZero negative
  else if (Decimal.exponentRange : Int) < d.exponent then .infinity negative
  else if d.exponent < -(Decimal.exponentRange + (d.digits.log2 + 1) : Nat) then
    signedZero negative
  else if 0 ≤ d.exponent then
    ofUnits negative (d.digits * Nat.pow 10 d.exponent.toNat * unitsPerOne) 1
  else
    ofUnits negative (d.digits * unitsPerOne) (Nat.pow 10 (-d.exponent).toNat)

theorem Binary64.isNan_ofDecimal (negative : Bool) (d : Decimal) :
    (ofDecimal negative d).isNan = false := by
  unfold ofDecimal
  split
  · rfl
  split
  · rfl
  split
  · rfl
  split
  · exact isNan_ofUnits _ _ _
  · exact isNan_ofUnits _ _ _

namespace Decimal

/-- The power of ten of the first significant digit of a positive count of
    units. The scale `10 ^ exponentRange` makes every such count at least one,
    so that the digits of the integer part can be counted. -/
def leadingExponent (units : Nat) : Int :=
  (Nat.toDigits 10 (units * Nat.pow 10 exponentRange / unitsPerOne)).length - 1 - exponentRange

/-- The two multiples of `10 ^ exponent` around a count of units, the nearer one
    first. Of two equally near ones the even multiple comes first. -/
def neighbours (units : Nat) (exponent : Int) : List Decimal :=
  let num := if 0 ≤ exponent then units else units * Nat.pow 10 (-exponent).toNat
  let den := if 0 ≤ exponent then unitsPerOne * Nat.pow 10 exponent.toNat else unitsPerOne
  let below : Decimal := ⟨num / den, exponent⟩
  let above : Decimal := ⟨num / den + 1, exponent⟩
  -- The nearer one is the one that rounding would choose.
  if roundHalfEven num den = num / den then [below, above] else [above, below]

/-- A numeral reads back as a count of units when rounding it gives that count. -/
def readsAs (units : Nat) (d : Decimal) : Bool :=
  match Binary64.ofDecimal false d with
  | .finite _ u _ => u == units
  | _ => false

/-- All decimals of a count of units: one unit is `5 ^ 1074 * 10 ^ -1074`. -/
def exact (units : Nat) : Decimal :=
  ⟨units * Nat.pow 5 unitExponent, -unitExponent⟩

/-- The numeral with the fewest significant digits that reads back as a count
    of units, the nearest to it of those. -/
def shortest (units : Nat) : Decimal :=
  let leading := leadingExponent units
  -- Seventeen significant digits always tell a number from its neighbours.
  let grids := (List.range 17).map fun extra : Nat => leading - extra
  match (grids.flatMap (neighbours units)).find? (readsAs units) with
  | some d => d
  -- Not reached, but right as well, and so no proof is needed that it is not.
  | none => exact units

end Decimal

end TextGrammar
