import TextGrammar.Expression.Evaluation

/-!
# Strict Operations

That no operator of a guard asks the arithmetic for a result that it may not have.

The bare operations of a machine may be partial. A division by zero is refused, also
where not a number is divided, and so is a remainder of an infinity or by zero, unless
the result is bound not to be a number. The operators therefore answer these cases on
their own, and call the bare operation for what is left.

Strict operators are written in this way, over the partial operations, so they may have
no result. They turn out to have one on all operands, missing ones and those of the
wrong type included, and it is that of the total operators. The machine with strict
operators is then the machine: it fails in no new way.

## Main definitions

* `Binary64.bareQuotient?`, `Binary64.bareRemainder?`: The partial operations.
* `Binary64.quotient?`, `Binary64.remainder?`: The same with their cases told apart.
* `BinaryOperator.strict?`: The operators over the partial operations.
* `Expression.StrictFault`: Why the machine with strict operators stops.
* `Expression.strictStep`, `Expression.strictRun`: That machine.

## Theorems

* `Binary64.quotient?_eq`, `Binary64.remainder?_eq`: These results are never missing.
* `BinaryOperator.strict?_eq`: Nor are those of the operators.
* `Expression.strictStep_eq`, `Expression.strictRun_eq`: One instruction, and then any
  number of them, do the same on both machines.
-/

namespace TextGrammar

namespace Binary64

/-- One of the two infinities. -/
def isInfinite : Binary64 → Bool
  | .infinity _ => true
  | _ => false

/-- Whether the sign of the number is minus, which it may be for a zero too. -/
def isMinus : Binary64 → Bool
  | .nan _ => false
  | .infinity negative => negative
  | .finite negative _ _ => negative

/-- The quotient, of which there is none by zero. -/
def bareQuotient? (x y : Binary64) : Option Binary64 := if y.isNonzero then some (x / y) else none

/-- The remainder. Of two numbers there is none if the first is infinite or the second
    is zero. -/
def bareRemainder? (x y : Binary64) : Option Binary64 :=
  if x.isNan || y.isNan || (!x.isInfinite && y.isNonzero) then some (x % y) else none

/-- The quotient, with a division by zero told by hand: an infinity with the sign that
    the two signs give, and not a number where zero or not a number is divided. -/
def quotient? (x y : Binary64) : Option Binary64 :=
  if y.equal 0 then
    if x.equal 0 || x.isNan then some (.nan .constant)
    else some (.infinity (x.isMinus != y.isMinus))
  else bareQuotient? x y

/-- The remainder, which by zero or of an infinity is not a number. -/
def remainder? (x y : Binary64) : Option Binary64 :=
  if y.equal 0 || x.isInfinite then some (.nan .constant) else bareRemainder? x y

theorem equal_zero_finite (negative : Bool) (units : Nat) (valid : Number.IsMagnitude units) :
    (finite negative units valid).equal 0 = decide (units = 0) := by
  change decide (signed negative units = signed false 0) = _
  cases negative with
  | false => exact decide_eq_decide.2 Int.natCast_eq_zero
  | true => exact decide_eq_decide.2 (Int.neg_eq_zero.trans Int.natCast_eq_zero)

theorem isNonzero_of_not_equal {y : Binary64} (h : ¬ y.equal 0 = true) : y.isNonzero = true := by
  rw [isNonzero, Bool.eq_false_iff.2 h, Bool.not_false]

/-- There always is a quotient. -/
theorem quotient?_eq (x y : Binary64) : quotient? x y = some (x / y) := by
  unfold quotient?
  by_cases hzero : y.equal 0 = true
  · rw [if_pos hzero]
    -- The divisor is a zero, of either sign, and has no units.
    cases y with
    | nan => exact absurd hzero Bool.false_ne_true
    | infinity n => exact absurd hzero Bool.false_ne_true
    | finite n b w =>
        rw [equal_zero_finite, decide_eq_true_eq] at hzero
        subst hzero
        cases x with
        | nan => rfl
        | infinity m => rfl
        | finite m a v =>
            have hquotient : finite m a v / finite n 0 w =
                if a = 0 then nan .constant else infinity (m != n) := by
              change div (finite m a v) (finite n 0 w) = _
              rw [div, if_pos rfl]
            rw [equal_zero_finite, show (finite m a v).isNan = false from rfl, Bool.or_false,
              hquotient]
            by_cases ha : a = 0
            · rw [if_pos ha, if_pos (decide_eq_true ha)]
            · rw [if_neg ha, if_neg (ne_true_of_eq_false (decide_eq_false ha))]
              rfl
  · rw [if_neg hzero, bareQuotient?, if_pos (isNonzero_of_not_equal hzero)]

/-- There always is a remainder. -/
theorem remainder?_eq (x y : Binary64) : remainder? x y = some (x % y) := by
  unfold remainder?
  by_cases hspecial : (y.equal 0 || x.isInfinite) = true
  -- By zero, or of an infinity: the answer is the constant on both sides.
  · rw [if_pos hspecial]
    cases y with
    | nan object =>
        cases x with
        | nan _ => exact absurd hspecial Bool.false_ne_true
        | infinity m => rfl
        | finite m a v => exact absurd hspecial Bool.false_ne_true
    | infinity n =>
        cases x with
        | nan object => exact absurd hspecial Bool.false_ne_true
        | infinity m => rfl
        | finite m a v => exact absurd hspecial Bool.false_ne_true
    | finite n b w =>
        cases x with
        | nan object =>
            rw [show (nan object).isInfinite = false from rfl, Bool.or_false, equal_zero_finite,
              decide_eq_true_eq] at hspecial
            subst hspecial
            rfl
        | infinity m => rfl
        | finite m a v =>
            -- Both are finite, so the test is about the divisor.
            have hzero : b = 0 := by
              rw [show (finite m a v).isInfinite = false from rfl, Bool.or_false,
                equal_zero_finite, decide_eq_true_eq] at hspecial
              exact hspecial
            exact congrArg some (if_pos hzero).symm
  -- Behind the test the bare remainder exists.
  · rw [Bool.not_eq_true, Bool.or_eq_false_iff] at hspecial
    rcases hspecial with ⟨hdivisor, hdividend⟩
    have hzero : ¬ y.equal 0 = true := Bool.eq_false_iff.1 hdivisor
    rw [hdivisor, hdividend, Bool.or_false, if_neg Bool.false_ne_true, bareRemainder?, hdividend,
      isNonzero_of_not_equal hzero, Bool.not_false, Bool.and_true, Bool.or_true, if_pos rfl]

end Binary64

namespace BinaryOperator

/-- The result of an operator on its left and right operand, as far as the partial
    operations give one. -/
def strict? (op : BinaryOperator) (a b : Option Datum) : Option Datum :=
  match op with
  | .divide => (Binary64.quotient? ((number? a).getD 1) ((number? b).getD 1)).map .number
  | .modulo =>
    match number? a, number? b with
    | none, _ => some (.number 0)
    | some x, none => some (.number x)
    | some x, some y => (Binary64.remainder? x y).map .number
  | op => some (op.apply a b)

/-- Every operator has a result on all operands. -/
theorem strict?_eq (op : BinaryOperator) (a b : Option Datum) :
    op.strict? a b = some (op.apply a b) := by
  cases op with
  | divide =>
      unfold strict?
      dsimp only
      rw [Binary64.quotient?_eq]
      rfl
  | modulo =>
      unfold strict?
      dsimp only [apply]
      unfold remainder
      cases number? a with
      | none => rfl
      | some x =>
          cases number? b with
          | none => rfl
          | some y =>
              dsimp only
              rw [Binary64.remainder?_eq]
              rfl
  | _ => rfl

end BinaryOperator

namespace Expression

/-- Why the machine with strict operators stops: an instruction lacks operands, or an
    operator has no result. -/
inductive StrictFault where
  | lacking (i : Instruction)
  | undefined (op : BinaryOperator)

/-- The stack after one instruction, with strict operators. -/
def strictStep (ns : Namespace) : Instruction → Stack → Except StrictFault Stack
  | .literal d, stack => .ok (some d :: stack)
  | .get name, stack => .ok (ns.operand? name :: stack)
  | .not, a :: stack => .ok (some (.boolean (!BinaryOperator.truth a)) :: stack)
  | .binary op, b :: a :: stack =>
    match op.strict? a b with
    | some d => .ok (some d :: stack)
    | none => .error (.undefined op)
  | i, _ => .error (.lacking i)

/-- The stack after a sequence of instructions, with strict operators. -/
def strictRun (ns : Namespace) : List Instruction → Stack → Except StrictFault Stack
  | [], stack => .ok stack
  | i :: rest, stack =>
    match strictStep ns i stack with
    | .ok next => strictRun ns rest next
    | .error fault => .error fault

/-- An instruction does the same with strict operators. -/
theorem strictStep_eq (ns : Namespace) (i : Instruction) (stack : Stack) :
    strictStep ns i stack =
      match step ns i stack with
      | some next => .ok next
      | none => .error (.lacking i) := by
  cases i with
  | literal d => rfl
  | get name => rfl
  | not => cases stack <;> rfl
  | binary op =>
      match stack with
      | [] => rfl
      | [_] => rfl
      | b :: a :: rest =>
          rw [strictStep, BinaryOperator.strict?_eq]
          rfl

/-- So do instructions one after the other. The only fault is a lack of operands. -/
theorem strictRun_eq (ns : Namespace) (instructions : List Instruction) (stack : Stack) :
    strictRun ns instructions stack = (run ns instructions stack).mapError .lacking := by
  induction instructions generalizing stack with
  | nil => rfl
  | cons i rest ih =>
      rw [strictRun, run, strictStep_eq]
      cases step ns i stack with
      | none => rfl
      | some next => exact ih next

end Expression

end TextGrammar
