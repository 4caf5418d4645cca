import Mathlib.Data.Int.ConditionallyCompleteOrder
import Mathlib.Order.ConditionallyCompleteLattice.Basic
import Mathlib.Order.WithBot
import TextGrammar.Expression.Instruction

/-!
# Comparison of Operands

That the four comparisons read one order of operands.

A number stands in the order at its level, which is its count of units with the sign, and
the infinities stand at the limits of these counts. An operand without a number stands
below all levels, be it missing or of another type. So there is one bottom, and nothing
else is told of operands that hold no number.

The two comparisons without equality do not make the order strict at the bottom: of two
operands there, either is less than the other, and neither is greater. This is the only
place where a comparison differs from the opposite one with its operands exchanged. What
is not a number has no level, and is left out.

## Main definitions

* `Binary64.level`: Where a number stands in the order.
* `BinaryOperator.level`: Where an operand stands.
* `BinaryOperator.IsComparable`: An operand is anything but not a number.

## Theorems

* `Binary64.lt_iff_level_lt`, `Binary64.le_iff_level_le`: Numbers are compared by their
  levels.
* `BinaryOperator.lessThan_apply`, `BinaryOperator.lessThanOrEquals_apply`,
  `BinaryOperator.greaterThanOrEquals_apply`, `BinaryOperator.greaterThan_apply`: And so
  are operands, whether they hold numbers or not.
* `BinaryOperator.comparison_congr`: A comparison sees nothing but numbers.
* `BinaryOperator.comparisons_ordered`: The laws of the order.
-/

namespace TextGrammar

open Number

namespace Binary64

/-- Where a number stands in the order. Not a number stands nowhere, and the level that is
    written for it means nothing. -/
def level : Binary64 → Int
  | .nan _ => 0
  | .infinity negative => signed negative unitLimit
  | .finite negative units _ => signed negative units

/-- Finite numbers stand strictly between the infinities. -/
theorem level_finite (negative : Bool) {units : Nat} (valid : IsMagnitude units) :
    signed true unitLimit < signed negative units ∧
      signed negative units < signed false unitLimit := by
  have hlt : units < unitLimit := valid.2
  cases negative with
  | true => exact ⟨Int.neg_lt_neg (Int.ofNat_lt.2 hlt), show -(units : Int) < unitLimit by omega⟩
  | false => exact ⟨show -(unitLimit : Int) < units by omega, Int.ofNat_lt.2 hlt⟩

/-- Numbers are in the order of their levels. -/
theorem lt_eq_and_equal_eq {x y : Binary64} (hx : x.isNan = false) (hy : y.isNan = false) :
    x.lt y = decide (x.level < y.level) ∧ x.equal y = decide (x.level = y.level) := by
  -- Between infinities and finite numbers the definitions answer by the signs alone, and
  -- the levels of the infinities are beyond all others. Two finite numbers are compared by
  -- their levels to begin with.
  have hends : signed true unitLimit < signed false unitLimit :=
    show -(unitLimit : Int) < unitLimit by have := unitLimit_pos; omega
  cases x with
  | nan object => cases hx
  | infinity m =>
      cases y with
      | nan object => cases hy
      | infinity n =>
          unfold level lt equal
          cases m with
          | true => cases n <;> simp [hends, hends.ne]
          | false => cases n <;> simp [hends.le, hends.ne']
      | finite n b valid =>
          rcases level_finite n valid with ⟨hlow, hhigh⟩
          unfold level lt equal
          cases m with
          | true => simp [hlow, hlow.ne]
          | false => simp [hhigh.le, hhigh.ne']
  | finite m a valid =>
      cases y with
      | nan object => cases hy
      | infinity n =>
          rcases level_finite m valid with ⟨hlow, hhigh⟩
          unfold level lt equal
          cases n with
          | true => simp [hlow.le, hlow.ne']
          | false => simp [hhigh, hhigh.ne]
      | finite n b valid' => exact ⟨rfl, rfl⟩

theorem lt_iff_level_lt {x y : Binary64} (hx : x.isNan = false) (hy : y.isNan = false) :
    x < y ↔ x.level < y.level := by
  change x.lt y = true ↔ _
  rw [(lt_eq_and_equal_eq hx hy).1, decide_eq_true_eq]

theorem le_iff_level_le {x y : Binary64} (hx : x.isNan = false) (hy : y.isNan = false) :
    x ≤ y ↔ x.level ≤ y.level := by
  change (x.lt y || x.equal y) = true ↔ _
  rcases lt_eq_and_equal_eq hx hy with ⟨hlt, hequal⟩
  rw [hlt, hequal, Bool.or_eq_true, decide_eq_true_eq, decide_eq_true_eq]
  exact Int.le_iff_lt_or_eq.symm

end Binary64

namespace BinaryOperator

/-- Where an operand stands: at the level of its number, or below all levels if it holds
    none. -/
def level (a : Option Datum) : WithBot Int := (number? a).elim ⊥ fun x => (x.level : WithBot Int)

/-- An operand is missing, of any type but that of numbers, or a number that has a level. -/
def IsComparable (a : Option Datum) : Prop := (number? a).any Binary64.isNan = false

instance (a : Option Datum) : Decidable (IsComparable a) :=
  inferInstanceAs (Decidable ((number? a).any Binary64.isNan = false))

/-- The operators that compare numbers. -/
def comparisons : List BinaryOperator :=
  [.lessThan, .lessThanOrEquals, .greaterThanOrEquals, .greaterThan]

variable {a b c : Option Datum}

theorem level_eq_bot_iff : level a = ⊥ ↔ number? a = none := by
  unfold level
  cases number? a with
  | none => exact iff_of_true rfl rfl
  | some x => exact iff_of_false WithBot.coe_ne_bot (Option.some_ne_none x)

/-- A comparison of comparable operands is a condition on their levels, if it is that
    condition on numbers and answers like it where a level is at the bottom. -/
theorem comparison_eq {test : Binary64 → Binary64 → Bool} {leftMissing rightMissing : Bool}
    {P : WithBot Int → WithBot Int → Prop} [∀ i j, Decidable (P i j)]
    (hnumbers : ∀ x y : Binary64, x.isNan = false → y.isNan = false →
      (test x y = true ↔ P x.level y.level))
    (hleft : ∀ j, leftMissing = true ↔ P ⊥ j) (hright : ∀ i : Int, rightMissing = true ↔ P i ⊥)
    (ha : IsComparable a) (hb : IsComparable b) :
    comparison test leftMissing rightMissing a b = .boolean (decide (P (level a) (level b))) := by
  have hanswer : ∀ {answer : Bool} {i j : WithBot Int}, (answer = true ↔ P i j) →
      Datum.boolean answer = .boolean (decide (P i j)) := fun h =>
    congrArg Datum.boolean (Bool.eq_iff_iff.2 (h.trans decide_eq_true_iff.symm))
  unfold IsComparable at ha hb
  unfold comparison level
  cases hx : number? a with
  | none => exact hanswer (hleft _)
  | some x =>
      cases hy : number? b with
      | none => exact hanswer (hright _)
      | some y =>
          rw [hx] at ha
          rw [hy] at hb
          exact hanswer (hnumbers x y ha hb)

theorem lessThan_apply (ha : IsComparable a) (hb : IsComparable b) :
    lessThan.apply a b = .boolean (decide (level a < level b ∨ level a = ⊥)) := by
  refine comparison_eq (P := fun i j => i < j ∨ i = ⊥) (fun x y hx hy => ?_)
    (fun j => iff_of_true rfl (Or.inr rfl)) (fun i => ?_) ha hb
  · rw [decide_eq_true_eq, Binary64.lt_iff_level_lt hx hy, or_iff_left WithBot.coe_ne_bot,
      WithBot.coe_lt_coe]
  · exact iff_of_false Bool.false_ne_true fun h => h.elim (WithBot.not_lt_bot _) WithBot.coe_ne_bot

theorem lessThanOrEquals_apply (ha : IsComparable a) (hb : IsComparable b) :
    lessThanOrEquals.apply a b = .boolean (decide (level a ≤ level b)) := by
  refine comparison_eq (P := fun i j => i ≤ j) (fun x y hx hy => ?_)
    (fun j => iff_of_true rfl bot_le) (fun i => ?_) ha hb
  · rw [decide_eq_true_eq, Binary64.le_iff_level_le hx hy, WithBot.coe_le_coe]
  · exact iff_of_false Bool.false_ne_true (WithBot.not_coe_le_bot i)

theorem greaterThanOrEquals_apply (ha : IsComparable a) (hb : IsComparable b) :
    greaterThanOrEquals.apply a b = .boolean (decide (level b ≤ level a ∧ level a ≠ ⊥)) := by
  refine comparison_eq (P := fun i j => j ≤ i ∧ i ≠ ⊥) (fun x y hx hy => ?_)
    (fun j => iff_of_false Bool.false_ne_true fun h => h.2 rfl) (fun i => ?_) ha hb
  · rw [decide_eq_true_eq, Binary64.le_iff_level_le hy hx, and_iff_left WithBot.coe_ne_bot,
      WithBot.coe_le_coe]
  · exact iff_of_true rfl ⟨bot_le, WithBot.coe_ne_bot⟩

theorem greaterThan_apply (ha : IsComparable a) (hb : IsComparable b) :
    greaterThan.apply a b = .boolean (decide (level b < level a)) := by
  refine comparison_eq (P := fun i j => j < i) (fun x y hx hy => ?_)
    (fun j => iff_of_false Bool.false_ne_true (WithBot.not_lt_bot j)) (fun i => ?_) ha hb
  · rw [decide_eq_true_eq, Binary64.lt_iff_level_lt hy hx, WithBot.coe_lt_coe]
  · exact iff_of_true rfl (WithBot.bot_lt_coe i)

theorem comparison_congr (test : Binary64 → Binary64 → Bool) (leftMissing rightMissing : Bool)
    {a' b' : Option Datum} (ha : number? a = number? a') (hb : number? b = number? b') :
    comparison test leftMissing rightMissing a b =
      comparison test leftMissing rightMissing a' b' := by
  unfold comparison
  rw [ha, hb]

/-- A comparison sees nothing of its operands but the numbers they hold. -/
theorem apply_congr_of_mem_comparisons {op : BinaryOperator} (hop : op ∈ comparisons)
    {a' b' : Option Datum} (ha : number? a = number? a') (hb : number? b = number? b') :
    op.apply a b = op.apply a' b' := by
  simp only [comparisons, List.mem_cons, List.not_mem_nil, or_false] at hop
  rcases hop with rfl | rfl | rfl | rfl
  all_goals exact comparison_congr _ _ _ ha hb

/-- A comparison is the mirrored one with its operands exchanged, unless both operands
    stand at the bottom. -/
theorem apply_eq_mirrored_iff (ha : IsComparable a) (hb : IsComparable b) :
    (lessThan.apply a b = greaterThan.apply b a ∧
      lessThanOrEquals.apply a b = greaterThanOrEquals.apply b a) ↔
        number? a ≠ none ∨ number? b ≠ none := by
  rw [lessThan_apply ha hb, greaterThan_apply hb ha, lessThanOrEquals_apply ha hb,
    greaterThanOrEquals_apply hb ha, Datum.boolean.injEq, Datum.boolean.injEq, decide_eq_decide,
    decide_eq_decide, ← not_and_or, ← level_eq_bot_iff, ← level_eq_bot_iff]
  by_cases hbottom : level a = ⊥ ∧ level b = ⊥
  · -- There either operand is less than the other, but neither is greater.
    refine iff_of_false (fun h => ?_) (not_not_intro hbottom)
    have hlt := h.1.1 (Or.inr hbottom.1)
    rw [hbottom.2] at hlt
    exact WithBot.not_lt_bot _ hlt
  · refine iff_of_true ⟨⟨fun h => ?_, Or.inl⟩, ⟨fun h => ⟨h, fun hb => ?_⟩, And.left⟩⟩ hbottom
    · rcases h with h | h
      · exact h
      · rw [h]
        exact bot_lt_iff_ne_bot.2 fun hb => hbottom ⟨h, hb⟩
    · exact hbottom ⟨le_bot_iff.1 (hb ▸ h), hb⟩

/-- The comparisons form one order of operands that are no numbers, or numbers other than
    not a number. Either comparison is answered by yes exactly if its opposite is answered
    by no, and is the mirrored one with its operands exchanged exactly if one of these
    holds a number. Less or equal is reflexive, transitive and total. An operand without a
    number may be exchanged for a missing one in every comparison; it is less than or
    equal to everything, and no number is less than or equal to it. -/
theorem comparisons_ordered (a b c : Option Datum) (ha : IsComparable a) (hb : IsComparable b)
    (hc : IsComparable c) :
    ((∃ answer, lessThan.apply a b = .boolean answer ∧
        greaterThanOrEquals.apply a b = .boolean (!answer)) ∧
      ∃ answer, lessThanOrEquals.apply a b = .boolean answer ∧
        greaterThan.apply a b = .boolean (!answer)) ∧
    ((lessThan.apply a b = greaterThan.apply b a ∧
      lessThanOrEquals.apply a b = greaterThanOrEquals.apply b a) ↔
        number? a ≠ none ∨ number? b ≠ none) ∧
    (lessThanOrEquals.apply a a = .boolean true ∧
      (lessThanOrEquals.apply a b = .boolean true → lessThanOrEquals.apply b c = .boolean true →
        lessThanOrEquals.apply a c = .boolean true) ∧
      (lessThanOrEquals.apply a b = .boolean true ∨ lessThanOrEquals.apply b a = .boolean true)) ∧
    (number? a = none →
      (∀ op ∈ comparisons, op.apply a b = op.apply none b ∧ op.apply b a = op.apply b none) ∧
      lessThanOrEquals.apply a b = .boolean true ∧
      (number? b ≠ none → lessThanOrEquals.apply b a = .boolean false)) := by
  -- The laws are those of the linear order on levels, where what is not a number is at the
  -- bottom.
  have hle : ∀ {x y : Option Datum}, IsComparable x → IsComparable y →
      (lessThanOrEquals.apply x y = .boolean true ↔ level x ≤ level y) := fun hx hy => by
    rw [lessThanOrEquals_apply hx hy, Datum.boolean.injEq, decide_eq_true_eq]
  refine ⟨⟨⟨_, lessThan_apply ha hb, ?_⟩, _, lessThanOrEquals_apply ha hb, ?_⟩,
    apply_eq_mirrored_iff ha hb, ⟨?_, ?_, ?_⟩,
    fun hbottom => ⟨fun op hop => ⟨?_, ?_⟩, ?_, fun hnumber => ?_⟩⟩
  · simp only [greaterThanOrEquals_apply ha hb, ← decide_not, not_or, not_lt]
  · simp only [greaterThan_apply ha hb, ← decide_not, not_le]
  · exact (hle ha ha).2 le_rfl
  · rw [hle ha hb, hle hb hc, hle ha hc]
    exact le_trans
  · rw [hle ha hb, hle hb ha]
    exact le_total _ _
  · exact apply_congr_of_mem_comparisons hop hbottom rfl
  · exact apply_congr_of_mem_comparisons hop rfl hbottom
  · rw [hle ha hb, level_eq_bot_iff.2 hbottom]
    exact bot_le
  · have hnot : ¬ level b ≤ level a := by
      rwa [level_eq_bot_iff.2 hbottom, le_bot_iff, level_eq_bot_iff]
    rw [lessThanOrEquals_apply hb ha, decide_eq_false hnot]

/-- A text stands below the lowest number, and the lowest number below zero. -/
theorem comparisons_ordered_textFirst :
    IsComparable (some (.text "x")) ∧ IsComparable (some (.number (.infinity true))) ∧
      IsComparable (some (.number 0)) ∧
      lessThanOrEquals.apply (some (.number (.infinity true))) (some (.text "x")) =
        .boolean false ∧
      lessThan.apply (some (.text "x")) (some (.number (.infinity true))) =
        greaterThan.apply (some (.number (.infinity true))) (some (.text "x")) ∧
      lessThanOrEquals.apply (some (.text "x")) (some (.number 0)) = .boolean true := by
  have htext : IsComparable (some (.text "x")) := by decide
  have hlowest : IsComparable (some (.number (.infinity true))) := by decide
  have hzero : IsComparable (some (.number 0)) := by decide
  rcases comparisons_ordered _ _ _ htext hlowest hzero with ⟨_, hmirrored, ⟨_, htrans, _⟩, hbottom⟩
  have hnumber : number? (some (.number (.infinity true))) ≠ none := nofun
  exact ⟨htext, hlowest, hzero, (hbottom rfl).2.2 hnumber, (hmirrored.2 (Or.inr hnumber)).1,
    htrans (hbottom rfl).2.1 rfl⟩

end BinaryOperator

end TextGrammar
